import NetBoxScripts.Services.Storehouse

/-!
# Stored trees

Staging and refreshing record a tree as stored only once it is verified under the lock of the
project, replace an object only where no stored tree has it, and write one only while a revision
names it. So in every interleaving with deletions, cleanups and all that is done to the rows, what a
revision is to have in storage is there, and what is there is accounted for.

## Main definitions

* `Inside`, `Writing`: what a thread knows under the lock of a project
* `Stores`: what a program of the store does
* `Insertable`, `Loaded`: rows that are created or found

## Main results

* `writer`: the writer of a revision under the lock
* `asks_stageLocked`, `asks_refreshLocked`: staging and refreshing
* `stored_trees_intact`, `stored_content_immutable`, `content_accounted`: what is stored in any
  interleaving
-/

namespace NetBoxScripts

namespace Storehouse

open Lifecycle (pointer keyOf)

/-! ## Staging and refreshing -/

section Sessions

variable [Unicode] [Hashing] {t : ThreadId} {s s' : World} {p r : Id} {k : StorageKey}
  {digest : PyStr} {α β : Type} {row : RevisionRow} {assertion : World → Prop}

/-- What a program of the store does: it changes objects only. -/
def Stores (t : ThreadId) (s s' : World) : Prop :=
  Safe t s s' ∧ s' = { s with objects := s'.objects }

/-- What a thread knows under the lock of a project. -/
def Inside (t : ThreadId) (p : Id) (k : StorageKey) (s : World) : Prop :=
  s.Holds t k ∧ Homed p k s ∧ Safekept s

theorem lasting_true : Lasting t fun _ => True := lasting_of fun _ _ _ _ h => h

theorem lasting_inside : Lasting t (Inside t p k) :=
  lasting_holds.and (lasting_homed.and lasting_safekept)

/-- Objects that are written under the digest are accounted for. -/
def Backed (k : StorageKey) (digest : PyStr) (s : World) : Prop :=
  ∀ path, Listed digest path → s.record.overlapped = true ∨ Known k digest s

/-- What a thread knows under the lock of a project that it writes content for. -/
def Writing (t : ThreadId) (p : Id) (k : StorageKey) (digest : PyStr) (s : World) : Prop :=
  Inside t p k s ∧ Backed k digest s

/-- Under the lock nobody else settles a cleanup of the content. -/
theorem lasting_writing : Lasting t (Writing t p k digest) := by
  rintro u s s' hsafe hown ⟨hinside, hbacked⟩
  refine ⟨lasting_inside u s s' hsafe hown hinside, fun path hpath => ?_⟩
  have horderly := hsafe.orderly hinside.2.2
  cases hoverlapped : s'.record.overlapped with
  | true => exact .inl rfl
  | false =>
    rcases hbacked path hpath with htrue | hknown
    · cases hoverlapped.symm.trans (horderly.overlapped htrue)
    · rcases horderly.known hoverlapped k digest path hpath hknown with hknown | ⟨hlock, hjobs⟩
      · exact .inr hknown
      · by_cases hu : u = t
        · exact absurd (hown hu).2.2 hjobs
        · obtain ⟨n, hlock⟩ := hlock
          obtain ⟨m, hother⟩ := hinside.1
          rw [hother] at hlock
          cases hlock
          exact absurd rfl hu

/-- A manifest that has the digest of one that is stored is stored. -/
theorem verified_of_digest (hfree : CollisionFree) {a b : List ManifestEntry}
    (h : s.Verified k digest a) (ha : ∀ entry ∈ a, entry.Readable)
    (hb : ∀ entry ∈ b, entry.Readable) (hdigest : digest = manifestDigest b) :
    s.Verified k digest b := by
  have hperm := perm_of_manifestDigest_eq hfree ha hb (h.digest_eq.symm.trans hdigest)
  exact ⟨hdigest, h.trusted.perm hperm,
    fun entry hentry => h.tree entry (hperm.mem_iff.mpr hentry)⟩

theorem grounded_of_verified (hhomed : Homed p k s) (hproject : row.project = p)
    (hdigest : row.digest = some digest) (h : s.Verified k digest row.manifest) :
    Grounded s row := by
  intro k' hkey digest' hdigest'
  rw [hproject] at hkey
  obtain rfl := hhomed k' hkey
  obtain rfl := Option.some.inj (hdigest.symm.trans hdigest')
  exact h

/-- **The writer of a revision** under the lock of its project: it replaces only what no stored tree
has. -/
theorem writer (hfree : CollisionFree) {manifest : List ManifestEntry}
    (hreadable : ∀ entry ∈ manifest, entry.Readable) (hdigest : digest = manifestDigest manifest)
    (hhex : isHexDigest digest = true) (hlasting : Lasting t assertion)
    (hwriting : ∀ s, assertion s → Writing t p k digest s)
    (hown : ∀ s s', Stores t s s' → assertion s → assertion s') :
    WriterAssertion Safe t (Stores t) k digest manifest assertion where
  kept := keepsObjects hlasting.stable fun s hs => (hwriting s hs).1.1
  stay _ := ⟨.refl, rfl⟩
  put s entry content hs hentry hnone := by
    have hlisted : Listed digest entry.path :=
      ⟨hhex, manifest, hreadable, hdigest, List.mem_map_of_mem hentry⟩
    refine ⟨.setObject (hwriting s hs).1.1 _ (fun hkept r row hrow htree hkey hrow_digest other
      hother hpath => ?_) fun _ => ⟨hlisted, (hwriting s hs).2 _ hlisted⟩, rfl⟩
    obtain ⟨found, hfound, -⟩ :=
      (hkept.intact r row hrow htree k hkey digest hrow_digest).tree other hother
    rw [hpath, hnone] at hfound
    cases hfound
  drop s entry hs hentry hmismatch := by
    refine ⟨.setObject (hwriting s hs).1.1 _ (fun hkept r row hrow htree hkey hrow_digest => ?_)
      fun hne => absurd rfl hne, rfl⟩
    -- the entry would be stored, as the digest is that of the manifest
    have hverified := hkept.intact r row hrow htree k hkey digest hrow_digest
    have haddressed := (hkept.addressed r row hrow digest hrow_digest).2
    have hstored := verified_of_digest hfree hverified haddressed hreadable hdigest
    exact absurd (hstored.tree entry hentry) hmismatch
  park s n content _ := ⟨.park, rfl⟩
  own s key content h := hown s _ h

/-! ### Statements -/

/-- The same of a program of a session. -/
abbrev Asks {α : Type} (t : ThreadId) (prog : Vanishing.Session α) (post : α → World → Prop)
    (s : World) : Prop :=
  Guards t (prog.prog Vanishing.execute) post s

theorem asks_bind {prog : Vanishing.Session α} {post : α → World → Prop}
    {f : α → Vanishing.Session β} {post' : β → World → Prop} (h : Asks t prog post s)
    (hf : ∀ a s', post a s' → Asks t (f a) post' s') : Asks t (prog >>= f) post' s := by
  rw [Asks, Labelled.prog_bind]
  exact guards_bind h hf

theorem asks_raise {e : Failure} {post : α → World → Prop} : Asks t (Labelled.raise e) post s :=
  trivial

theorem asks_pure {a : α} {post : α → World → Prop} (h : post a s) : Asks t (pure a) post s := h

theorem asks_ofExcept {result : Except Failure α} {f : α → Vanishing.Session β}
    {post : β → World → Prop} (h : ∀ a, result = .ok a → Asks t (f a) post s) :
    Asks t (Labelled.ofExcept result >>= f) post s := by
  cases result with
  | ok a => exact h a rfl
  | error e => trivial

/-- A statement that takes and gives back no lock. -/
def Unlocking : Vanishing.Statement → Prop
  | .lock _ | .unlock _ => False
  | _ => True

omit [Unicode] [Hashing] in
theorem same_execute {statement : Vanishing.Statement} (hunlocking : Unlocking statement)
    {c : Choice} {b : Vanishing.Answer statement}
    (h : Vanishing.execute t statement c s = some (b, s')) :
    s'.locks = s.locks ∧ s'.objects = s.objects ∧ s'.jobs = s.jobs := by
  have hupdate : ∀ {q : Id} {found : RevisionStatus → Bool} {change : RevisionRow → RevisionRow},
      (Vanishing.updateRevision q found change s).2.locks = s.locks ∧
        (Vanishing.updateRevision q found change s).2.objects = s.objects ∧
          (Vanishing.updateRevision q found change s).2.jobs = s.jobs := by
    intro q found change
    unfold Vanishing.updateRevision
    split
    · exact ⟨rfl, rfl, rfl⟩
    · split_ifs
      all_goals exact ⟨rfl, rfl, rfl⟩
  cases statement with
  | lock | unlock => exact absurd hunlocking id
  | project p | previousSource p | revision r | declarations p | find row =>
    cases h
    exact ⟨rfl, rfl, rfl⟩
  | insert row =>
    rw [Vanishing.execute] at h
    obtain rfl : (Vanishing.insertRevision row s).2 = s' := congrArg Prod.snd (Option.some.inj h)
    unfold Vanishing.insertRevision
    split
    · exact ⟨rfl, rfl, rfl⟩
    · split_ifs
      all_goals exact ⟨rfl, rfl, rfl⟩
  | claim r =>
    rw [Vanishing.execute] at h
    obtain rfl := congrArg Prod.snd (Option.some.inj h)
    exact hupdate
  | settle r found status errors =>
    cases h
    exact hupdate
  | acceptSource p r pending =>
    rw [Vanishing.execute] at h
    split at h
    · cases h
      exact ⟨rfl, rfl, rfl⟩
    · split_ifs at h
      all_goals
        cases h
        exact ⟨rfl, rfl, rfl⟩

/-- A statement that changes what it may, and what is known of its answer. -/
theorem asks_ask {statement : Vanishing.Statement}
    {post : Vanishing.Answer statement → World → Prop} (hunlocking : Unlocking statement)
    (hlasting : Lasting t assertion) (hs : assertion s)
    (h : ∀ s' c b s'', assertion s' → Vanishing.execute t statement c s' = some (b, s'') →
      Safe t s' s'' ∧ (assertion s'' → post b s'')) :
    Asks t (Vanishing.ask statement) post s := by
  refine guards_act hlasting.stable hs fun s' hs' c b s'' hstep => ?_
  obtain ⟨hsafe, hpost⟩ := h s' c b s'' hs' hstep
  exact ⟨hsafe, hpost (hlasting t s' s'' hsafe (fun _ => same_execute hunlocking hstep) hs')⟩

theorem asks_projectOrVanished (hlasting : Lasting t assertion) (hs : assertion s) :
    Asks t (Vanishing.projectOrVanished p)
      (fun project s' => Homed p project.storageKey s' ∧ assertion s') s := by
  have hread : Asks t (Vanishing.ask (.project p))
      (fun answer s' => s'.projects.row p = answer ∧ assertion s') s := by
    refine asks_ask trivial hlasting hs fun s' c b s'' _ hstep => ?_
    cases hstep
    exact ⟨.refl, fun hs'' => ⟨rfl, hs''⟩⟩
  refine asks_bind hread fun answer s' hanswer => ?_
  split
  · next project =>
    refine asks_pure ⟨fun k' hkey => ?_, hanswer.2⟩
    rw [keyOf, hanswer.1] at hkey
    exact (Option.some.inj hkey).symm
  · exact asks_raise

theorem asks_revisionOrVanished (hlasting : Lasting t assertion) (hs : assertion s) :
    Asks t (Vanishing.revisionOrVanished r)
      (fun row s' => s'.revisions.row r = some row ∧ assertion s') s := by
  have hread : Asks t (Vanishing.ask (.revision r))
      (fun answer s' => s'.revisions.row r = answer ∧ assertion s') s := by
    refine asks_ask trivial hlasting hs fun s' c b s'' _ hstep => ?_
    cases hstep
    exact ⟨.refl, fun hs'' => ⟨rfl, hs''⟩⟩
  refine asks_bind hread fun answer s' hanswer => ?_
  split
  · exact asks_pure hanswer
  · exact asks_raise

theorem asks_declarations (hlasting : Lasting t assertion) (hs : assertion s) :
    Asks t (Vanishing.ask (.declarations p)) (fun _ => assertion) s := by
  refine asks_ask trivial hlasting hs fun s' c b s'' _ hstep => ?_
  cases hstep
  exact ⟨.refl, id⟩

/-! ### Rows -/

omit [Unicode] [Hashing] in
/-- A row with plain paths is stored with its manifest as it is. -/
theorem storedRow_same {stored : RevisionRow} (hplain : ∀ entry ∈ row.manifest, Plain entry.path)
    (h : Vanishing.storedRow row = some stored) : stored.project = row.project ∧
      stored.digest = row.digest ∧ stored.manifest = row.manifest ∧ stored.status = row.status := by
  rw [Vanishing.storedRow_of_plain hplain] at h
  obtain ⟨errors, -, rfl⟩ := Option.map_eq_some_iff.mp h
  exact ⟨rfl, rfl, rfl, rfl⟩

/-- **A row that may be inserted**: with a digest under the lock of its project only, and with its
tree in storage where it is to have one. -/
structure Insertable (t : ThreadId) (row : RevisionRow) (s : World) : Prop where
  plain : ∀ entry ∈ row.manifest, Plain entry.path
  addressed : row.Addressed
  locked : row.digest.isSome → ∀ k, keyOf s row.project = some k → s.Holds t k
  grounded : row.HasTree → Grounded s row

/-- The content that the row names is known. -/
def Naming (row : RevisionRow) (s : World) : Prop :=
  ∀ k, Homed row.project k s → ∀ digest ∈ row.digest, Known k digest s

theorem naming_of_row {found : RevisionRow} (hkept : Safekept s)
    (hrow : s.revisions.row r = some found) (hproject : found.project = row.project)
    (hdigest : found.digest = row.digest) : Naming row s := by
  intro k hhomed digest hmem
  obtain ⟨k', hkey⟩ := Option.isSome_iff_exists.mp (hkept.owned r found hrow)
  rw [hproject] at hkey
  obtain rfl := hhomed k' hkey
  refine .inl ⟨r, found, hrow, ?_, hdigest.trans hmem⟩
  rwa [← hproject] at hkey

theorem asks_insert (hlasting : Lasting t assertion)
    (hkept : ∀ s, assertion s → Safekept s)
    (hinsertable : ∀ s, assertion s → Insertable t row s) (hs : assertion s) :
    Asks t (Vanishing.ask (.insert row)) (fun answer s' => assertion s' ∧
      ∀ r, answer = .ok r → Names r row s' ∧ Naming row s') s := by
  refine asks_ask trivial hlasting hs fun s' c b s'' hs' hstep => ?_
  have hi := hinsertable s' hs'
  rw [Vanishing.execute, Vanishing.insertRevision] at hstep
  split at hstep
  · cases hstep
    exact ⟨.refl, fun hs'' => ⟨hs'', fun r h => by cases h⟩⟩
  · next stored hstored =>
    obtain ⟨hproject, hdigest, hmanifest, hstatus⟩ := storedRow_same hi.plain hstored
    split_ifs at hstep with htaken hmissing
    · cases hstep
      exact ⟨.refl, fun hs'' => ⟨hs'', fun r h => by cases h⟩⟩
    · cases hstep
      exact ⟨.refl, fun hs'' => ⟨hs'', fun r h => by cases h⟩⟩
    · cases hstep
      have hsame : Continues row stored := ⟨hproject, hdigest, hmanifest, fun h => hstatus ▸ h⟩
      have hexists : (s'.projects.row stored.project).isSome := by
        simpa [Option.isSome_iff_ne_none] using hmissing
      obtain ⟨project, hproject'⟩ := Option.isSome_iff_exists.mp hexists
      have hkey : keyOf s' stored.project = some project.storageKey := by
        rw [keyOf, hproject']
        rfl
      refine ⟨.insert (by rw [hkey]; rfl) (fun hsome => ⟨_, hkey, ?_⟩) ?_ ?_ fun htree => ?_,
        fun hs'' => ⟨hs'', fun r hr => ?_⟩⟩
      · exact hi.locked (hdigest ▸ hsome) _ (hproject ▸ hkey)
      · unfold RevisionRow.Addressed
        rw [hdigest, hmanifest]
        exact hi.addressed
      · rw [hmanifest]
        exact hi.plain
      · refine (hi.grounded ⟨hstatus ▸ htree.1, hdigest ▸ htree.2⟩).congr hsame
          (fun _ _ hkey => hkey) fun _ _ _ => rfl
      · cases hr
        refine ⟨⟨Nat.lt_succ_self _, fun row' hrow' => ?_⟩, ?_⟩
        · rw [Table.row_insert_next] at hrow'
          cases hrow'
          exact ⟨hproject, hdigest, hmanifest⟩
        · exact naming_of_row (hkept _ hs'') Table.row_insert_next hproject hdigest

theorem asks_createRevision (hlasting : Lasting t assertion)
    (hkept : ∀ s, assertion s → Safekept s)
    (hinsertable : ∀ s, assertion s → Insertable t row s) (hs : assertion s) :
    Asks t (Vanishing.createRevision row) (fun _ => assertion) s := by
  refine asks_bind (asks_insert hlasting hkept hinsertable hs) fun answer s' h => ?_
  split
  · exact asks_pure h.1
  · exact asks_raise

/-- What is known of a row that was found or created. -/
structure Loaded (row : RevisionRow) (r : Id) (found : RevisionRow) (s : World) : Prop where
  names : Names r found s
  project : found.project = row.project
  digest : found.digest = row.digest
  addressed : found.Addressed
  naming : Naming found s

/-- **The row of an identity**, found or created. -/
theorem asks_getOrCreate (hlasting : Lasting t assertion) (hkept : ∀ s, assertion s → Safekept s)
    (hinsertable : ∀ s, assertion s → Insertable t row s) (hs : assertion s) :
    Asks t (Vanishing.getOrCreate row)
      (fun found s' => assertion s' ∧ Loaded row found.1 found.2.1 s') s := by
  have hfind : ∀ {s : World}, assertion s → Asks t (Vanishing.ask (.find row))
      (fun answer s' => assertion s' ∧ ∀ found ∈ answer, Loaded row found.1 found.2 s') s := by
    intro s hs
    refine asks_ask trivial hlasting hs fun s' c b s'' hs' hstep => ?_
    cases hstep
    refine ⟨.refl, fun hs'' => ⟨hs'', fun found hfound => ?_⟩⟩
    have hrow := Table.mem_entries.mp (List.mem_of_find?_eq_some hfound)
    have hfound := List.find?_some hfound
    have hsame : found.2.SameIdentity row := of_decide_eq_true hfound
    exact ⟨names_of_row hrow, hsame.1, hsame.2.1, (hkept s' hs').addressed _ _ hrow,
      naming_of_row (hkept s' hs') hrow rfl rfl⟩
  refine asks_bind (hfind hs) ?_
  rintro answer s₁ ⟨h₁, hfound⟩
  cases answer with
  | some found => exact asks_pure ⟨h₁, hfound found rfl⟩
  | none =>
    refine asks_bind (asks_insert hlasting hkept hinsertable h₁) ?_
    rintro answer s₂ ⟨h₂, hinserted⟩
    split
    · next r =>
      obtain ⟨hnames, hnaming⟩ := hinserted r rfl
      exact asks_pure ⟨h₂, hnames, rfl, rfl, (hinsertable s₂ h₂).addressed, hnaming⟩
    · refine asks_bind (hfind h₂) ?_
      rintro answer s₃ ⟨h₃, hfound⟩
      cases answer with
      | some found => exact asks_pure ⟨h₃, hfound found rfl⟩
      | none => exact asks_raise
    · exact asks_raise

/-! ### Writing a revision -/

section Writing

variable {files : SourceFiles} {created : Bool} {turns : ℕ}

theorem Stores.inside (h : Stores t s s') (hs : Inside t p k s) : Inside t p k s' := by
  obtain ⟨⟨n, hlock⟩, hhomed, hkept⟩ := hs
  exact ⟨⟨n, by rw [h.2]; exact hlock⟩, h.1.homed hhomed, h.1.safekept hkept⟩

theorem Stores.writing (h : Stores t s s') (hs : Writing t p k digest s) :
    Writing t p k digest s' := by
  refine ⟨h.inside hs.1, ?_⟩
  rw [h.2]
  exact hs.2

/-- The update of one revision, where it finds one. -/
theorem safe_updateRevision {found : RevisionStatus → Bool} {change : RevisionRow → RevisionRow}
    (h : ∀ row, s.revisions.row r = some row → found row.status = true →
      Continues row (change row) ∧
        (Safekept s → (change row).HasTree → row.HasTree ∨ Grounded s row)) :
    Safe t s (Vanishing.updateRevision r found change s).2 := by
  unfold Vanishing.updateRevision
  split
  · exact .refl
  · next row hrow =>
    split_ifs with hfound
    · refine .modify fun row' hrow' => ?_
      obtain rfl := Option.some.inj (hrow.symm.trans hrow')
      exact h row hrow hfound
    · exact .refl

/-- A row whose content is not written is claimed, or fails, as such. -/
theorem asks_unwritten {statement : Vanishing.Statement} (hlasting : Lasting t assertion)
    (hs : assertion s) (hstatement : statement = .claim r ∨
      ∃ errors, statement = .settle r [.staging] .storageFailed errors) :
    Asks t (Vanishing.ask statement) (fun _ => assertion) s := by
  rcases hstatement with rfl | ⟨errors, rfl⟩
  · refine asks_ask trivial hlasting hs fun s' c b s'' _ hstep => ⟨?_, id⟩
    rw [Vanishing.execute] at hstep
    obtain rfl := congrArg Prod.snd (Option.some.inj hstep)
    refine safe_updateRevision fun row _ hretryable => ⟨⟨rfl, rfl, rfl, fun hstored => ?_⟩,
      fun _ htree => ?_⟩
    · rw [RevisionStatus.retryable_eq_unstored, hstored] at hretryable
      cases hretryable
    · cases htree.1
  · refine asks_ask trivial hlasting hs fun s' c b s'' _ hstep => ⟨?_, id⟩
    cases hstep
    refine safe_updateRevision fun row _ hstaging => ⟨⟨rfl, rfl, rfl, fun hstored => ?_⟩,
      fun _ htree => ?_⟩
    · have hstatus : row.status = .staging := by simpa using hstaging
      rw [hstatus] at hstored
      cases hstored
    · cases htree.1

/-- **A row is settled as stored** once its tree is verified under the lock. -/
theorem asks_settle {found : List RevisionStatus} {errors : List ErrorRecord}
    (hproject : row.project = p) (hdigest : row.digest = some digest)
    (hs : (Inside t p k s ∧ Names r row s) ∧ s.Holds t k ∧ s.Verified k digest row.manifest) :
    Asks t (Vanishing.ask (.settle r found .materialized errors)) (fun _ _ => True) s := by
  refine asks_ask trivial ((lasting_inside.and lasting_names).and lasting_verified) hs
    fun s' c b s'' hs' hstep => ⟨?_, fun _ => trivial⟩
  obtain ⟨⟨⟨-, hhomed, -⟩, hnames⟩, -, hverified⟩ := hs'
  cases hstep
  refine safe_updateRevision fun row' hrow' _ => ⟨⟨rfl, rfl, rfl, fun _ => rfl⟩,
    fun _ _ => .inr ?_⟩
  obtain ⟨hproject', hdigest', hmanifest'⟩ := hnames.2 row' hrow'
  refine grounded_of_verified hhomed (hproject'.trans hproject) (hdigest'.trans hdigest) ?_
  rw [hmanifest']
  exact hverified

/-- **A verification** under the lock of the project. -/
theorem asks_verify {manifest : List ManifestEntry} (hlasting : Lasting t assertion)
    (hlock : ∀ s, assertion s → s.Holds t k) (hs : assertion s) :
    Asks t (Vanishing.store (verifyRevisionTree k digest manifest))
      (fun _ s' => assertion s' ∧ s'.Holds t k ∧ s'.Verified k digest manifest) s := by
  refine Vanishing.wp_store (fun _ _ h => h) (wp_mono (fun result s₁ h₁ => ?_)
    (wp_verifyRevisionTree (fun _ => ⟨.refl, rfl⟩) (keepsObjects hlasting.stable hlock) hs))
  cases result with
  | ok u => exact ⟨h₁.1, hlock s₁ h₁.1, h₁.2 rfl⟩
  | error e => trivial

/-- What follows the claim of a row. -/
theorem asks_writeClaimed (hfree : CollisionFree) (hproject : row.project = p)
    (haddressed : row.Addressed) (hdigest : row.digest = some digest)
    (hs : Writing t p k digest s ∧ Names r row s) :
    Asks t (Vanishing.writeClaimed k files r row created) (fun _ _ => True) s := by
  have hreadable : ∀ entry ∈ row.manifest, entry.Readable := (haddressed digest hdigest).2
  have hwrite : Asks t ((do
      Labelled.ofExcept (Vanishing.rowManifest row)
      Vanishing.store (writeRevision k (row.digest.getD []) files row.manifest) :
        Vanishing.Session Unit).attempt) (fun written s' =>
          (Writing t p k digest s' ∧ Names r row s') ∧
            (written = .ok () → s'.Verified k digest row.manifest)) s := by
    rw [Asks, Labelled.prog_attempt, Guards, wp_attempt, Labelled.prog_bind, wp_bind]
    cases Vanishing.rowManifest row with
    | error failure => exact ⟨hs, fun h => by cases h⟩
    | ok u =>
      refine Vanishing.wp_store (fun _ _ h => h) ?_
      rw [hdigest]
      refine wp_writeRevision (fun _ => ⟨.refl, rfl⟩) (fun hdigest_eq _ hhex => ?_) hs
      refine writer hfree hreadable hdigest_eq hhex (lasting_writing.and lasting_names)
        (fun s hs => hs.1) fun s s' hstores hs => ?_
      exact ⟨hstores.writing hs.1, hstores.1.names hs.2⟩
  refine asks_bind hwrite ?_
  rintro written s₁ ⟨h₁, hverified⟩
  split
  · split_ifs
    · refine asks_bind (asks_unwritten (lasting_writing.and lasting_names) h₁ (.inr ⟨_, rfl⟩)) ?_
      exact fun _ _ _ => asks_raise
    · exact asks_raise
  · have hlock := h₁.1.1.1
    refine asks_bind (asks_settle hproject hdigest
      ⟨⟨h₁.1.1, h₁.2⟩, hlock, hverified rfl⟩) fun _ s₂ _ => ?_
    exact asks_bind (asks_revisionOrVanished lasting_true trivial) fun row s₃ _ => asks_pure trivial

/-- **The loop of staging.** -/
theorem asks_settleLoop (hfree : CollisionFree) (hproject : row.project = p)
    (haddressed : row.Addressed) (hdigest : row.digest = some digest)
    (hs : Writing t p k digest s ∧ Names r row s) :
    Asks t (Vanishing.settleLoop k files r created turns row) (fun _ _ => True) s := by
  induction turns generalizing row s with
  | zero => exact asks_raise
  | succ turns ih =>
    unfold Vanishing.settleLoop
    split_ifs
    · refine asks_ofExcept fun _ _ => ?_
      exact asks_bind (asks_verify (lasting_writing.and lasting_names) (fun _ h => h.1.1.1) hs)
        fun _ s₁ _ => asks_pure trivial
    · exact asks_pure trivial
    · refine asks_bind (asks_unwritten (lasting_writing.and lasting_names) hs (.inl rfl))
        fun claimed s₁ h₁ => ?_
      cases claimed with
      | true => exact asks_writeClaimed hfree hproject haddressed hdigest h₁
      | false =>
        refine asks_bind (asks_revisionOrVanished (lasting_writing.and lasting_names) h₁) ?_
        rintro row' s₂ ⟨hrow', hwriting, hnames⟩
        obtain ⟨hproject', hdigest', -⟩ := hnames.2 row' hrow'
        exact ih (hproject'.trans hproject) (hwriting.1.2.2.addressed r row' hrow')
          (hdigest'.trans hdigest) ⟨hwriting, names_of_row hrow'⟩

end Writing

/-! ### Calls -/

/-- **The project lock** of a session: what everybody keeps does so until it is held. -/
theorem asks_projectLock {prog : Vanishing.Session α}
    (hkept : ∀ u s s', Safe u s s' → assertion s → assertion s') (hs : assertion s)
    (h : ∀ s', s'.Holds t k → assertion s' → Asks t prog (fun _ _ => True) s') :
    Asks t (Vanishing.projectLock k prog) (fun _ _ => True) s := by
  have hlock : Asks t (Vanishing.ask (.lock k)) (fun _ s' => s'.Holds t k ∧ assertion s') s := by
    refine guards_act (lasting_of hkept).stable hs fun s' hs' c b s'' hstep => ?_
    have hlocks := (@Lifecycle.quiet_execute (.lock k) trivial _ _ _ _ _ hstep).locks
    rw [Vanishing.execute] at hstep
    split at hstep
    · cases hstep
      have hsafe : Safe t s' (s'.setLock k (some (t, 1))) := .of_eq hlocks rfl rfl rfl rfl
      exact ⟨hsafe, ⟨1, Function.update_self ..⟩, hkept t _ _ hsafe hs'⟩
    · next u n _ =>
      split_ifs at hstep with hu
      cases hstep
      have hsafe : Safe t s' (s'.setLock k (some (t, n + 2))) := .of_eq hlocks rfl rfl rfl rfl
      exact ⟨hsafe, ⟨n + 2, Function.update_self ..⟩, hkept t _ _ hsafe hs'⟩
    · cases hstep
  have hunlock : ∀ t c s b s', Vanishing.execute t (.unlock k) c s = some (b, s') →
      Safe t s s' := by
    intro t c s b s' hstep
    have hlocks := (@Lifecycle.quiet_execute (.unlock k) trivial _ _ _ _ _ hstep).locks
    rw [Vanishing.execute] at hstep
    split at hstep
    · split_ifs at hstep
      all_goals
        cases hstep
        exact .of_eq hlocks rfl rfl rfl rfl
    · cases hstep
      exact .refl
  rw [Asks, Vanishing.projectLock, Labelled.prog_bind]
  simp only [Labelled.prog_finallyDo]
  refine guards_bind hlock fun _ s₁ h₁ => ?_
  exact guards_finallyDo (fun _ _ _ _ _ h => h) (h s₁ h₁.1 h₁.2) (Labelled.eachStep_ask hunlock)

theorem homed_kept (u : ThreadId) (s s' : World) (h : Safe u s s')
    (hs : Homed p k s ∧ Safekept s) : Homed p k s' ∧ Safekept s' :=
  ⟨h.homed hs.1, h.safekept hs.2⟩

/-- **Staging.** -/
theorem asks_stageLocked {files : SourceFiles} {limits : StorageLimits} {now : Time} {turns : ℕ}
    (hfree : CollisionFree) (hs : Safekept s) :
    Asks t (Vanishing.stageLocked p files limits now turns) (fun _ _ => True) s := by
  unfold Vanishing.stageLocked
  split
  · exact asks_raise
  · next entries errors hbuild =>
    have hentries := buildManifest_plain_entries hbuild
    refine asks_bind (asks_declarations lasting_safekept hs) fun snapshot s₁ h₁ => ?_
    dsimp only
    split_ifs with herrors
    · refine asks_bind (asks_createRevision lasting_safekept (fun _ hs => hs)
        (fun s hs => ?_) h₁)
        fun _ _ _ => asks_pure trivial
      exact ⟨hentries, fun _ h => (by cases h), fun h => (by cases h), fun h => (by cases h.2)⟩
    · rw [not_not] at herrors
      subst herrors
      have hreadable := (buildManifest_builtFrom hbuild).describes.readable
      refine asks_bind (asks_projectOrVanished lasting_safekept h₁) ?_
      rintro key s₂ ⟨hkey, h₂⟩
      refine asks_projectLock homed_kept ⟨hkey, h₂⟩ fun s₃ hlock h₃ => ?_
      have haddressed : RevisionRow.Addressed { stagedRow p entries snapshot now with
          digest := some (manifestDigest entries), status := .staging } := by
        intro digest hdigest
        cases hdigest
        exact ⟨rfl, hreadable⟩
      refine asks_bind (asks_getOrCreate lasting_inside (fun s hs => hs.2.2) (fun s hs => ?_)
        ⟨hlock, h₃⟩) ?_
      · refine ⟨hentries, haddressed, fun _ k hk => ?_, fun htree => by cases htree.1⟩
        rw [hs.2.1 k hk]
        exact hs.1
      · rintro found s₄ ⟨h₄, hfound⟩
        have hbacked : Backed key.storageKey (manifestDigest entries) s₄ := fun path _ =>
          .inr (hfound.naming _ (hfound.project ▸ h₄.2.1) _ hfound.digest)
        exact asks_settleLoop hfree hfound.project hfound.addressed hfound.digest
          ⟨⟨h₄, hbacked⟩, hfound.names⟩

/-- **Refreshing.** -/
theorem asks_refreshLocked {pk : Id} {now : Time} (hfree : CollisionFree) (hs : Safekept s) :
    Asks t (Vanishing.refreshLocked pk now) (fun _ _ => True) s := by
  refine asks_bind (asks_revisionOrVanished lasting_safekept hs) ?_
  rintro source s₁ ⟨hsource, h₁⟩
  have hplain := h₁.plain pk source hsource
  have haddressed := h₁.addressed pk source hsource
  split_ifs with hdigest
  · exact asks_raise
  · obtain ⟨digest, hdigest⟩ : ∃ digest, source.digest = some digest := by
      cases hsome : source.digest with
      | none => simp [Vanishing.hasDigest, hsome] at hdigest
      | some digest => exact ⟨digest, rfl⟩
    have hreadable : ∀ entry ∈ source.manifest, entry.Readable := (haddressed digest hdigest).2
    refine asks_ofExcept fun _ _ => ?_
    refine asks_bind (asks_declarations lasting_safekept h₁) fun snapshot s₂ h₂ => ?_
    refine asks_bind (asks_projectOrVanished lasting_safekept h₂) ?_
    rintro key s₃ ⟨hkey, h₃⟩
    refine asks_projectLock homed_kept ⟨hkey, h₃⟩ fun s₄ hlock h₄ => ?_
    refine asks_bind (asks_verify lasting_inside (fun _ h => h.1) ⟨hlock, h₄⟩) fun _ s₅ h₅ => ?_
    rw [hdigest, Option.getD_some] at h₅
    refine asks_bind (asks_getOrCreate (lasting_inside.and lasting_verified)
      (fun s hs => hs.1.2.2) (fun s hs => ?_) h₅) ?_
    · obtain ⟨⟨hholds, hhomed, -⟩, -, hverified⟩ := hs
      refine ⟨hplain, haddressed, fun _ k hk => ?_, fun _ => ?_⟩
      · rw [hhomed k hk]
        exact hholds
      · exact grounded_of_verified hhomed rfl hdigest hverified
    · rintro ⟨r, candidate, created⟩ s₆ ⟨⟨hinside, hlocked, hverified⟩, hfound⟩
      dsimp only
      split_ifs
      · have hcandidate : candidate.digest = some digest := hfound.digest.trans hdigest
        have hcontent := hfound.addressed digest hcandidate
        have hstored := verified_of_digest hfree hverified hreadable hcontent.2 hcontent.1
        refine asks_bind (asks_settle hfound.project hcandidate
          ⟨⟨hinside, hfound.names⟩, hlocked, hstored⟩) fun _ s₇ _ => ?_
        exact asks_bind (asks_revisionOrVanished lasting_true trivial)
          fun row s₈ _ => asks_pure trivial
      · exact asks_pure trivial

/-! ### Services -/

theorem guards_stageRevision {files : SourceFiles} {limits : StorageLimits} {activateOnce : Bool}
    {now : Time} {turns : ℕ} (hfree : CollisionFree) (hs : Safekept s) :
    Guards t (Requests.stageRevision p files limits activateOnce now turns) (fun _ _ => True)
      s := by
  have hkept : ∀ u s s', Safe u s s' → Safekept s → Safekept s' := fun _ _ _ h => h.safekept
  refine guards_bind (guards_keeps safe_getProject hkept hs) fun key s₁ h₁ => ?_
  refine guards_projectLock hkept h₁ fun s₂ _ h₂ => ?_
  refine guards_bind (asks_stageLocked hfree h₂) fun staged s₃ _ => ?_
  exact guards_each safe_acceptSource

theorem guards_refreshSource {now : Time} (hfree : CollisionFree) (hs : Safekept s) :
    Guards t (Requests.refreshSource p now) (fun _ _ => True) s := by
  have hkept : ∀ u s s', Safe u s s' → Safekept s → Safekept s' := fun _ _ _ h => h.safekept
  refine guards_bind (guards_keeps safe_query hkept hs) fun answer s₁ h₁ => ?_
  split
  · exact guards_pure trivial
  · refine guards_projectLock hkept h₁ fun s₂ _ h₂ => ?_
    refine guards_bind (guards_keeps safe_query hkept h₂) fun answer s₃ h₃ => ?_
    split
    · exact guards_pure trivial
    · refine guards_bind (guards_keeps safe_getProject hkept h₃) fun key s₄ h₄ => ?_
      refine guards_projectLock hkept h₄ fun s₅ _ h₅ => ?_
      refine guards_bind (asks_refreshLocked hfree h₅) fun staged s₆ _ => ?_
      exact guards_each safe_acceptSource

end Sessions

/-! ## Any interleaving -/

section System

variable [Unicode] [Hashing] {Cls : Type} [DecidableEq Cls] {t : ThreadId} {s : World}

/-- **Every task** leaves what is stored. -/
theorem Task.guards (hfree : CollisionFree) (task : Task Cls) (hidle : Idle t s) :
    Guards t task.body (fun _ _ => True) s := by
  have hs := hidle.1
  cases task with
  | stage project files limits activateOnce now turns => exact guards_stageRevision hfree hs
  | refresh project now => exact guards_refreshSource hfree hs
  | validate env r job => exact guards_validationJob hs
  | activate r revision isRepair => exact guards_activateRevision hs
  | deactivate project r => exact guards_each safe_deactivateRevision
  | saveProject p fields authorized updateFields hfields => exact guards_saveProject hfields hs
  | saveFile file fields => exact guards_each safe_saveScriptFile
  | deleteFile project f => exact guards_each safe_deleteScriptFile
  | deleteRevisions rows => exact guards_deleteRevisions hfree hidle
  | deleteProject p => exact guards_deleteProject hfree hidle
  | cleanup j => exact guards_cleanupJob hfree hs

theorem verified_storehouse (hfree : CollisionFree) :
    (storehouse : System World Choice Failure (Task Cls)).Verified Safe (fun _ => Safe) Idle where
  body task _ _ hs := wp_mono (fun _ _ _ => trivial) (task.guards hfree hs)
  fresh_stable _ := enduring_idle.lasting
  guar_change h := h
  reap _ _ := .close Publication.quiet_reap.locks rfl
  tick _ _ := .of_eq .refl rfl rfl rfl rfl

omit [DecidableEq Cls] in
/-- A pool without a process, in a state in which nothing is being deleted. -/
theorem sound_start {s₀ : World} {next : ThreadId} (hstart : Safekept s₀)
    (hidle : ∀ r, s₀.deleting r = none) : Sound Safe (fun _ => Safe) Idle
      (Pool.start s₀ next : Pool World Choice Failure (Task Cls)) := by
  refine .start fun t _ => ⟨hstart, fun r hr => ?_⟩
  rw [hidle] at hr
  cases hr

/-- **Stored trees stay intact.** In every interleaving of stagings, refreshes, validations,
activations, deactivations, saves, deletions of revisions and of projects, and cleanups, any of
which may fail or end at any point, every revision that is to have a tree has it, as its manifest
records it, and the content that a project serves came to be written. -/
theorem stored_trees_intact {pool : Pool World Choice Failure (Task Cls)} {s₀ : World}
    {next : ThreadId} (hfree : CollisionFree) (hstart : Safekept s₀)
    (hidle : ∀ r, s₀.deleting r = none)
    (hrun : Run storehouse (fun _ _ => True) (Pool.start s₀ next) pool) :
    (∀ r row k, pool.world.revisions.row r = some row → keyOf pool.world row.project = some k →
      row.HasTree → ∃ digest, row.digest = some digest ∧
        pool.world.Verified k digest row.manifest) ∧
    ∀ p r row, pointer pool.world p = some r → pool.world.revisions.row r = some row →
      row.status.unstored = false := by
  have hs : Safekept pool.world := (verified_storehouse hfree).run_invariant
    (fun _ _ _ h => h.safekept) (sound_start hstart hidle) hstart hrun
  refine ⟨fun r row k hrow hkey htree => ?_, fun p r row hserves hrow => ?_⟩
  · obtain ⟨digest, hdigest⟩ := Option.isSome_iff_exists.mp htree.2
    exact ⟨digest, hdigest, hs.intact r row hrow htree k hkey digest hdigest⟩
  · exact (hs.finished p r hserves).2 row hrow

/-- What a later state keeps of an earlier one. -/
structure Follows (s s' : World) : Prop where
  keys : ∀ p k, keyOf s' p = some k → keyOf s p = some k
  next : s.revisions.next ≤ s'.revisions.next
  rows : ∀ r row', s'.revisions.row r = some row' →
    (∃ row, s.revisions.row r = some row ∧ Continues row row') ∨ s.revisions.next ≤ r

omit [Unicode] [Hashing] in
theorem Follows.refl : Follows s s :=
  ⟨fun _ _ h => h, Nat.le_refl _, fun _ row hrow => .inl ⟨row, hrow, .refl⟩⟩

omit [Unicode] [Hashing] in
theorem Continues.trans {row₁ row₂ row₃ : RevisionRow} (h : Continues row₁ row₂)
    (h' : Continues row₂ row₃) : Continues row₁ row₃ :=
  ⟨h'.project.trans h.project, h'.digest.trans h.digest, h'.manifest.trans h.manifest,
    fun hstored => h'.stored (h.stored hstored)⟩

theorem Follows.step {s₀ s' : World} (h : Follows s₀ s) (hsafe : Safe t s s') : Follows s₀ s' where
  keys p k hkey := h.keys p k (hsafe.keys p k hkey)
  next := h.next.trans hsafe.next
  rows r row' hrow' := by
    rcases hsafe.rows r row' hrow' with ⟨row, hrow, hsame⟩ | ⟨hnew, -⟩
    · rcases h.rows r row hrow with ⟨row₀, hrow₀, hsame₀⟩ | hnew
      · exact .inl ⟨row₀, hrow₀, hsame₀.trans hsame⟩
      · exact .inr hnew
    · exact .inr (h.next.trans hnew)

/-- **Stored content never changes.** Between any two moments of an interleaving a revision keeps its
project, its digest and its manifest, and once its content is written that stays so, with the very
same bytes in storage. -/
theorem stored_content_immutable {pool pool' : Pool World Choice Failure (Task Cls)} {s₀ : World}
    {next : ThreadId} (hfree : CollisionFree) (hstart : Safekept s₀)
    (hidle : ∀ r, s₀.deleting r = none)
    (hrun : Run storehouse (fun _ _ => True) (Pool.start s₀ next) pool)
    (hrun' : Run storehouse (fun _ _ => True) pool pool') :
    ∀ r row row', pool.world.revisions.row r = some row → pool'.world.revisions.row r = some row' →
      row'.project = row.project ∧ row'.digest = row.digest ∧ row'.manifest = row.manifest ∧
        (row.HasTree → row'.HasTree ∧ ∀ k, keyOf pool'.world row.project = some k →
          ∀ digest ∈ row.digest, ∀ entry ∈ row.manifest, ∃ content,
            pool.world.objects (.revision k digest entry.path) = some content ∧
              pool'.world.objects (.revision k digest entry.path) = some content) := by
  have hS : (storehouse : System World Choice Failure (Task Cls)).Verified Safe (fun _ => Safe)
      Idle := verified_storehouse hfree
  have hsound : Sound Safe (fun _ => Safe) Idle pool :=
    hS.run_sound (sound_start hstart hidle) hrun
  have hkept : Safekept pool.world :=
    hS.run_invariant (fun _ _ _ h => h.safekept) (sound_start hstart hidle) hstart hrun
  have hkept' : Safekept pool'.world :=
    hS.run_invariant (fun _ _ _ h => h.safekept) hsound hkept hrun'
  have hfollows : Follows pool.world pool'.world := by
    refine hS.run_induction (motive := fun q => Follows pool.world q.world) hsound .refl ?_ hrun'
    intro q event q' _ hq _ _ hchange
    rcases hchange.world_change hS with heq | ⟨t, hsafe⟩
    · exact heq ▸ hq
    · exact hq.step hsafe
  intro r row row' hrow hrow'
  have hsame : Continues row row' := by
    rcases hfollows.rows r row' hrow' with ⟨old, hold, hsame⟩ | hnew
    · obtain rfl := Option.some.inj (hold.symm.trans hrow)
      exact hsame
    · exact absurd (Table.lt_next_of_row hrow) (Nat.not_lt.mpr hnew)
  refine ⟨hsame.project, hsame.digest, hsame.manifest, fun htree => ?_⟩
  have htree' : row'.HasTree := ⟨hsame.stored htree.1, hsame.digest ▸ htree.2⟩
  refine ⟨htree', fun k hkey digest hdigest entry hentry => ?_⟩
  have hbefore := hkept.intact r row hrow htree k (hfollows.keys _ _ hkey) digest hdigest
  have hafter := hkept'.intact r row' hrow' htree' k (hsame.project ▸ hkey) digest
    (hsame.digest ▸ hdigest)
  obtain ⟨content, hstored, hintact⟩ := hbefore.tree entry hentry
  obtain ⟨content', hstored', hintact'⟩ := hafter.tree entry (hsame.manifest ▸ hentry)
  obtain rfl := hfree.injective (hintact.2.trans hintact'.2.symm)
  exact ⟨content, hstored, hstored'⟩

/-- Both invariants hold in every run. -/
theorem accounted_of_run {pool : Pool World Choice Failure (Task Cls)} {s₀ : World}
    {next : ThreadId} (hfree : CollisionFree) (hstart : Safekept s₀)
    (hidle : ∀ r, s₀.deleting r = none) (haccounted : Accounted s₀)
    (hrun : Run storehouse (fun _ _ => True) (Pool.start s₀ next) pool) :
    Safekept pool.world ∧ Accounted pool.world :=
  (verified_storehouse hfree).run_invariant (fun _ _ _ => Safe.invariants)
    (sound_start hstart hidle) ⟨hstart, haccounted⟩ hrun

/-- **Stored content is accounted for.** In an interleaving in which no reference check was made
while another transaction was deleting a revision with the same content, each object in the store of
a project is a file of a revision that is there, or of a cleanup that has not completed. Database
routes are safe throughout, and an object that a backend parked under another name is not counted. -/
theorem content_accounted {pool : Pool World Choice Failure (Task Cls)} {s₀ : World}
    {next : ThreadId} (hfree : CollisionFree) (hstart : Safekept s₀)
    (hidle : ∀ r, s₀.deleting r = none) (haccounted : Accounted s₀)
    (hrun : Run storehouse (fun _ _ => True) (Pool.start s₀ next) pool)
    (hquiet : pool.world.record.overlapped = false) :
    ∀ k digest path, pool.world.objects (.revision k digest path) ≠ none →
      (∃ r row, pool.world.revisions.row r = some row ∧ pool.world.Addresses row k digest ∧
        path ∈ row.manifest.map ManifestEntry.path) ∨
      ∃ j job, pool.world.jobs.row j = some job ∧ job.completed = false ∧
        job.payload.storageKey = k ∧ job.payload.digest = digest ∧ path ∈ job.payload.paths := by
  obtain ⟨hkept, hs⟩ := accounted_of_run hfree hstart hidle haccounted hrun
  exact fun k digest path => hs.accounts hkept hfree hquiet

end System

section Restaged

/-- A hash that tells contents apart, with the real ones of `x` and of the manifest of `a.py`. -/
@[reducible] def writtenHashing : Hashing where
  sha256 content :=
    if content = (exampleTable.getD 1 ([], [])).1 then (exampleTable.getD 1 ([], [])).2
    else spelledHashing.sha256 content

theorem collisionFree_writtenHashing : @CollisionFree writtenHashing := by
  have hother : ∀ content, (exampleTable.getD 1 ([], [])).2 ≠ spelledHashing.sha256 content := by
    intro content heq
    change _ = ite _ _ _ at heq
    split_ifs at heq
    · revert heq
      decide
    · have hhead : (exampleTable.getD 1 ([], [])).2.head? = some 52 := by decide
      rw [heq] at hhead
      cases hhead
  refine @CollisionFree.mk writtenHashing (fun a b h => ?_) fun content c hc => ?_
  · change ite _ _ _ = ite _ _ _ at h
    split_ifs at h with ha hb hb
    · rw [ha, hb]
    · exact absurd h (hother b)
    · exact absurd h.symm (hother a)
    · exact @CollisionFree.injective spelledHashing collisionFree_spelledHashing a b h
  · change c ∈ ite _ _ _ at hc
    split_ifs at hc with hx
    · revert c
      decide
    · exact @CollisionFree.ascii spelledHashing collisionFree_spelledHashing content c hc

/-- A project without revisions. -/
def unstagedWorld : World :=
  { vacantWorld with
    projects := vacantWorld.projects.insert
      ⟨py "p", 0, .upload, none, [], .manual, none, none, false, true⟩ }

/-- The system, with its tables. -/
def exampleStorehouse : System World Choice Failure (Task Unit) :=
  @storehouse asciiUnicode writtenHashing Unit _

/-- The staging of `a.py`. -/
def staging : Task Unit :=
  .stage 1 (oneFile (py "a.py")) ⟨10, 10, 10⟩ false 0 5

/-- The pool after a task of the next thread. -/
def after (task : Task Unit) (pool : Pool World Choice Failure (Task Unit)) :
    Pool World Choice Failure (Task Unit) :=
  (pool.spawn exampleStorehouse task).drive exampleStorehouse pool.next .proceed 60

/-- `a.py` is staged, and its revision deleted. -/
def deletedPool : Pool World Choice Failure (Task Unit) :=
  after (.deleteRevisions [1]) (after staging (Pool.start unstagedWorld 0))

/-- The same content is staged again before the cleanup. -/
def stagedAgainPool : Pool World Choice Failure (Task Unit) := after staging deletedPool

/-- The cleanup comes last. -/
def restagedPool : Pool World Choice Failure (Task Unit) := after (.cleanup 1) stagedAgainPool

theorem run_after {task : Task Unit} {start pool : Pool World Choice Failure (Task Unit)}
    (hrun : Run exampleStorehouse (fun _ _ => True) start pool) :
    Run exampleStorehouse (fun _ _ => True) start (after task pool) :=
  @run_drive World Choice Failure (Task Unit) exampleStorehouse start
    (pool.spawn exampleStorehouse task) pool.next .proceed 60 (run_spawn task hrun)

theorem deletedPool_run :
    Run exampleStorehouse (fun _ _ => True) (Pool.start unstagedWorld 0) deletedPool :=
  run_after (run_after .refl)

theorem stagedAgainPool_run :
    Run exampleStorehouse (fun _ _ => True) (Pool.start unstagedWorld 0) stagedAgainPool :=
  run_after deletedPool_run

theorem safekept_unstagedWorld : @Safekept asciiUnicode writtenHashing unstagedWorld := by
  have hnone : ∀ r row, unstagedWorld.revisions.row r ≠ some row := fun _ _ => nofun
  refine @Safekept.mk asciiUnicode writtenHashing unstagedWorld
    (fun r row hrow => absurd hrow (hnone r row)) (fun r row hrow => absurd hrow (hnone r row))
    (fun r row hrow => absurd hrow (hnone r row)) (fun p q hq => ?_)
    (fun r row hrow => absurd hrow (hnone r row)) nofun
  obtain ⟨project, hproject, hactive⟩ := Option.bind_eq_some_iff.mp hq
  rcases Table.row_insert_eq_some hproject with ⟨rfl, rfl⟩ | hold
  · cases hactive
  · cases hold

theorem accounted_unstagedWorld : @Accounted asciiUnicode writtenHashing unstagedWorld :=
  @Accounted.mk asciiUnicode writtenHashing unstagedWorld (fun _ _ _ hobject => absurd rfl hobject)
    (fun _ _ _ _ hobject => absurd rfl hobject) (fun _ _ hjob => by cases hjob) nofun
    fun _ _ hjob => by cases hjob

/-- The cleanup of a deleted revision leaves the content that was staged again. -/
theorem stored_trees_intact_restaged :
    (restagedPool.world.jobs.row (1 : Id)).map (fun job => job.completed) = some true ∧
    ∃ row digest, restagedPool.world.revisions.row (2 : Id) = some row ∧
      row.digest = some digest ∧
      @World.Verified asciiUnicode writtenHashing restagedPool.world 0 digest row.manifest := by
  have hends : (restagedPool.world.jobs.row (1 : Id)).map (fun job => job.completed) = some true ∧
      (restagedPool.world.revisions.row (2 : Id)).map (fun row =>
        (keyOf restagedPool.world row.project, row.status.unstored, row.digest.isSome)) =
          some (some 0, false, true) := by
    decide +kernel
  obtain ⟨hcompleted, hstored⟩ := hends
  obtain ⟨row, hrow, heq⟩ := Option.map_eq_some_iff.mp hstored
  simp only [Prod.mk.injEq] at heq
  obtain ⟨hkey, htree⟩ := heq
  obtain ⟨digest, hdigest, hverified⟩ := (@stored_trees_intact asciiUnicode writtenHashing Unit _
    restagedPool unstagedWorld 0 collisionFree_writtenHashing safekept_unstagedWorld
    (fun _ => rfl) (run_after stagedAgainPool_run)).1 _ row _ hrow hkey htree
  exact ⟨hcompleted, row, digest, hrow, hdigest, hverified⟩

/-- The cleanup leaves the very bytes that were staged again. -/
theorem stored_content_immutable_restaged :
    ∃ row row', stagedAgainPool.world.revisions.row (2 : Id) = some row ∧
      restagedPool.world.revisions.row (2 : Id) = some row' ∧ row.manifest ≠ [] ∧
        row'.manifest = row.manifest ∧ ∀ digest ∈ row.digest, ∀ entry ∈ row.manifest,
          ∃ content, stagedAgainPool.world.objects (.revision 0 digest entry.path) = some content ∧
            restagedPool.world.objects (.revision 0 digest entry.path) = some content := by
  have hbefore : (stagedAgainPool.world.revisions.row (2 : Id)).map (fun row =>
      (keyOf restagedPool.world row.project, row.manifest.isEmpty, row.status.unstored,
        row.digest.isSome)) = some (some 0, false, false, true) := by
    decide +kernel
  have hafter : (restagedPool.world.revisions.row (2 : Id)).isSome = true := by decide +kernel
  obtain ⟨row, hrow, heq⟩ := Option.map_eq_some_iff.mp hbefore
  obtain ⟨row', hrow'⟩ := Option.isSome_iff_exists.mp hafter
  simp only [Prod.mk.injEq] at heq
  obtain ⟨hkey, hmanifest, htree⟩ := heq
  obtain ⟨-, -, hsame, hcontent⟩ := @stored_content_immutable asciiUnicode writtenHashing Unit _
    stagedAgainPool restagedPool unstagedWorld 0 collisionFree_writtenHashing
    safekept_unstagedWorld (fun _ => rfl) stagedAgainPool_run (run_after .refl) _ row row' hrow hrow'
  refine ⟨row, row', hrow, hrow', fun hnil => ?_, hsame, (hcontent htree).2 _ hkey⟩
  rw [hnil] at hmanifest
  cases hmanifest

/-- The content of a deleted revision is that of the cleanup which is to come. -/
theorem content_accounted_deleted :
    deletedPool.world.revisions.row (1 : Id) = none ∧ ∃ digest, ∃ path : PyStr,
      deletedPool.world.objects (.revision 0 digest path) ≠ none ∧
        ∃ j job, deletedPool.world.jobs.row j = some job ∧ job.completed = false ∧
          job.payload.storageKey = 0 ∧ job.payload.digest = digest ∧ path ∈ job.payload.paths := by
  have hends : deletedPool.world.revisions.entries.isEmpty = true ∧
      deletedPool.world.record.overlapped = false ∧
      (deletedPool.world.jobs.row (1 : Id)).map (fun job => (deletedPool.world.objects
        (.revision 0 job.payload.digest (py "a.py"))).isSome) = some true := by
    decide +kernel
  obtain ⟨hnone, hquiet, hstored⟩ := hends
  obtain ⟨deleted, -, hobject⟩ := Option.map_eq_some_iff.mp hstored
  have hrow : ∀ r row, deletedPool.world.revisions.row r ≠ some row := by
    intro r row hrow
    have hmem := Table.mem_entries.mpr hrow
    rw [List.isEmpty_iff.mp hnone] at hmem
    cases hmem
  have hobject' := Option.isSome_iff_ne_none.mp hobject
  refine ⟨Option.eq_none_iff_forall_ne_some.mpr (hrow _), _, _, hobject', ?_⟩
  rcases @content_accounted asciiUnicode writtenHashing Unit _ deletedPool unstagedWorld 0
    collisionFree_writtenHashing safekept_unstagedWorld (fun _ => rfl) accounted_unstagedWorld
    deletedPool_run hquiet 0 _ _ hobject' with ⟨r, row, hrow', -⟩ | hjob
  · exact absurd hrow' (hrow r row)
  · exact hjob

end Restaged

end Storehouse

end NetBoxScripts
