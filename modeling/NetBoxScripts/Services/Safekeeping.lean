import NetBoxScripts.Services.Deletion
import NetBoxScripts.Services.Warrants

/-!
# Keeping what is stored

What every task leaves of the rows and of the objects: a row keeps what it names, a row with a
digest comes to be under the lock of its project, objects of a project change under its lock, and
what is recorded as stored is stored.

## Main definitions

* `Safekept`: the invariant
* `Safe`: what a thread may change
* `Known`, `Accounted`: content that is accounted for

## Main results

* `Safe.of_rows`, `Safe.insert`, `Safe.setObject`: the changes of rows and of objects
* `Safe.invariants`: what everybody keeps
* `Lasting`: what a thread can rely on
-/

namespace NetBoxScripts

namespace Storehouse

open Lifecycle (pointer keyOf OwnLocks)

/-! ## The invariant -/

section Invariant

variable [Unicode] [Hashing]

/-- The tree that a row names is stored under the key of its project. -/
def Grounded (s : World) (row : RevisionRow) : Prop :=
  ∀ k, keyOf s row.project = some k → ∀ digest ∈ row.digest, s.Verified k digest row.manifest

/-- The revision was created, and the write of its content came to an end, if it is still there. -/
def Finished (q : Id) (s : World) : Prop :=
  q < s.revisions.next ∧ ∀ row, s.revisions.row q = some row → row.status.unstored = false

/-- **The invariant**: what a row is to have in storage is there. A revision has a project, and what
an open transaction deletes is locked by it. -/
structure Safekept (s : World) : Prop where
  intact : ∀ r row, s.revisions.row r = some row → row.HasTree → Grounded s row
  addressed : s.RowsAddressed
  plain : Vanishing.PlainRows s
  finished : ∀ p q, pointer s p = some q → Finished q s
  owned : ∀ r row, s.revisions.row r = some row → (keyOf s row.project).isSome = true
  locked : ∀ r t, s.deleting r = some t → s.rowLocks (.revision r) = some t

/-- What a row keeps. -/
structure Continues (row row' : RevisionRow) : Prop where
  project : row'.project = row.project
  digest : row'.digest = row.digest
  manifest : row'.manifest = row.manifest
  stored : row.status.unstored = false → row'.status.unstored = false

/-! ### Content and what names it -/

/-- A path that content with the digest can have. -/
def Listed (digest path : PyStr) : Prop :=
  isHexDigest digest = true ∧ ∃ manifest : List ManifestEntry,
    (∀ entry ∈ manifest, entry.Readable) ∧ digest = manifestDigest manifest ∧
      path ∈ manifest.map ManifestEntry.path

omit [Unicode] [Hashing] in
/-- A revision names the content, or a cleanup that has not come to its end. -/
def Known (k : StorageKey) (digest : PyStr) (s : World) : Prop :=
  (∃ r row, s.revisions.row r = some row ∧ s.Addresses row k digest) ∨
    ∃ j job, s.jobs.row j = some job ∧ job.settled = false ∧
      job.payload.storageKey = k ∧ job.payload.digest = digest

/-- What a cleanup is recorded with: the paths of the manifest with the digest. -/
def Inventory (payload : CleanupPayload) : Prop :=
  ∃ manifest : List ManifestEntry, (∀ entry ∈ manifest, entry.Readable) ∧
    (∀ entry ∈ manifest, normalizeSourcePath entry.path = .ok entry.path) ∧
      payload.digest = manifestDigest manifest ∧
        payload.paths = manifest.map ManifestEntry.path

/-- **Content is accounted for**: as long as no two deletions overlapped, it is known. -/
structure Accounted (s : World) : Prop where
  listed : ∀ k digest path, s.objects (.revision k digest path) ≠ none → Listed digest path
  known : s.record.overlapped = false → ∀ k digest path,
    s.objects (.revision k digest path) ≠ none → Known k digest s
  payloads : ∀ j job, s.jobs.row j = some job → Inventory job.payload
  cleanups : ∀ t, ∀ payload ∈ (s.deletion t).cleanups, Inventory payload
  settled : ∀ j job, s.jobs.row j = some job → job.completed = true → job.settled = true

/-- What deletions and cleanups work with. -/
def ledger (s : World) : (RowRef → Option ThreadId) × (Id → Option ThreadId) ×
    (ThreadId → Deletion) × Table CleanupJob × Bool :=
  (s.rowLocks, s.deleting, s.deletion, s.jobs, s.record.overlapped)

/-- **How a thread deletes and cleans up**: a row goes in the transaction that checked its content,
a check that overlaps is noted, and content is known until a cleanup settles it under the lock. -/
structure Orderly (t : ThreadId) (s s' : World) : Prop where
  overlapped : s.record.overlapped = true → s'.record.overlapped = true
  deleting : ∀ r u, u ≠ t → (s'.deleting r = some u ↔ s.deleting r = some u)
  deletion : ∀ u, u ≠ t → s'.deletion u = s.deletion u
  checks : ∀ k digest, (k, digest) ∈ (s'.deletion t).checked →
    ((k, digest) ∈ (s.deletion t).checked ∧ ∀ r, s'.deleting r = some t → s.deleting r = some t) ∨
      s'.record.overlapped = true ∨ ¬ s.OverlapsDeletion t k digest
  gone : ∀ r row, s.revisions.row r = some row → s'.revisions.row r = none →
    s.deleting r = some t ∧ ∀ k digest path, s.Addresses row k digest → Listed digest path →
      (k, digest) ∈ (s.deletion t).checked
  homes : ∀ r row, s'.revisions.row r = some row → ∀ k, keyOf s row.project = some k →
    keyOf s' row.project = some k
  jobs : ∀ j job, s.jobs.row j = some job → ∃ job', s'.jobs.row j = some job' ∧
    job'.payload = job.payload ∧ (job.settled = true → job'.settled = true)
  known : s'.record.overlapped = false → ∀ k digest path, Listed digest path → Known k digest s →
    Known k digest s' ∨ s.Holds t k ∧ s'.jobs ≠ s.jobs

/-- **What a thread may change.** -/
structure Safe (t : ThreadId) (s s' : World) : Prop where
  locks : OwnLocks t s s'
  keys : ∀ p k, keyOf s' p = some k → keyOf s p = some k
  next : s.revisions.next ≤ s'.revisions.next
  rows : ∀ r row', s'.revisions.row r = some row' →
    (∃ row, s.revisions.row r = some row ∧ Continues row row') ∨
      (s.revisions.next ≤ r ∧ (row'.digest.isSome → Requests.Locked t s row'.project))
  objects : ∀ k digest path, s'.objects (.revision k digest path) =
    s.objects (.revision k digest path) ∨ s.Holds t k
  safekept : Safekept s → Safekept s'
  orderly : Safekept s → Orderly t s s'
  accounted : Safekept s → Accounted s → Accounted s'

end Invariant

section Changes

variable [Unicode] [Hashing] {t u : ThreadId} {s s' : World} {p q r : Id} {k : StorageKey}
  {digest path : PyStr}

omit [Unicode] [Hashing] in
theorem Continues.refl {row : RevisionRow} : Continues row row := ⟨rfl, rfl, rfl, id⟩

theorem Grounded.congr {row row' : RevisionRow} (h : Grounded s row) (hsame : Continues row row')
    (hkeys : ∀ p k, keyOf s' p = some k → keyOf s p = some k)
    (hobjects : ∀ k digest path, s'.objects (.revision k digest path) =
      s.objects (.revision k digest path)) : Grounded s' row' := by
  intro k hkey digest hdigest
  rw [hsame.project] at hkey
  rw [hsame.digest] at hdigest
  obtain ⟨hdigest_eq, htrusted, htree⟩ := h k (hkeys _ _ hkey) digest hdigest
  rw [hsame.manifest]
  refine ⟨hdigest_eq, htrusted, fun entry hentry => ?_⟩
  simpa only [World.EntryStored, hobjects] using htree entry hentry

/-! ### What a step leaves -/

/-- The step leaves deletions and cleanups alone, and takes no row away. -/
structure Leaves (s s' : World) : Prop where
  same : ledger s' = ledger s
  rows : ∀ r row, s.revisions.row r = some row → ∃ row', s'.revisions.row r = some row' ∧
    row'.project = row.project ∧ row'.digest = row.digest
  homes : ∀ p k, keyOf s p = some k → keyOf s' p = some k

omit [Unicode] [Hashing] in
theorem Leaves.of_eq (hprojects : s'.projects = s.projects) (hrevisions : s'.revisions = s.revisions)
    (hledger : ledger s' = ledger s) : Leaves s s' := by
  refine ⟨hledger, fun r row hrow => ⟨row, hrevisions ▸ hrow, rfl, rfl⟩, fun p k hkey => ?_⟩
  rwa [keyOf, hprojects]

omit [Unicode] [Hashing] in
theorem Leaves.known (h : Leaves s s') (hs : Known k digest s) : Known k digest s' := by
  have hjobs : s'.jobs = s.jobs := congrArg (fun parts => parts.2.2.2.1) h.same
  rcases hs with ⟨r, row, hrow, hkey, hdigest⟩ | ⟨j, job, hjob, hnames⟩
  · obtain ⟨row', hrow', hproject', hdigest'⟩ := h.rows r row hrow
    refine .inl ⟨r, row', hrow', ?_, hdigest'.trans hdigest⟩
    have hkey' := h.homes row.project k hkey
    rwa [← hproject'] at hkey'
  · exact .inr ⟨j, job, by rw [hjobs, hjob], hnames⟩

omit [Unicode] in
theorem Leaves.orderly (h : Leaves s s') : Orderly t s s' := by
  have hdeleting : s'.deleting = s.deleting := congrArg (fun parts => parts.2.1) h.same
  have hdeletion : s'.deletion = s.deletion := congrArg (fun parts => parts.2.2.1) h.same
  have hjobs : s'.jobs = s.jobs := congrArg (fun parts => parts.2.2.2.1) h.same
  have hoverlapped : s'.record.overlapped = s.record.overlapped :=
    congrArg (fun parts => parts.2.2.2.2) h.same
  constructor
  · exact fun hs => hoverlapped.trans hs
  · exact fun r u _ => by rw [hdeleting]
  · exact fun u _ => by rw [hdeletion]
  · intro k digest hchecked
    rw [hdeletion] at hchecked
    exact .inl ⟨hchecked, fun r hr => by rwa [hdeleting] at hr⟩
  · intro r row hrow hnone
    obtain ⟨row', hrow', -⟩ := h.rows r row hrow
    cases hrow'.symm.trans hnone
  · exact fun r row _ k hkey => h.homes row.project k hkey
  · exact fun j job hjob => ⟨job, by rw [hjobs, hjob], rfl, id⟩
  · exact fun _ k digest path _ hs => .inl (h.known hs)

theorem Leaves.accounted (h : Leaves s s') (hobjects : ∀ k digest path,
    s'.objects (.revision k digest path) ≠ none → Listed digest path ∧
      (s.objects (.revision k digest path) ≠ none ∨ s.record.overlapped = true ∨
        Known k digest s)) (hs : Accounted s) : Accounted s' := by
  have hdeletion : s'.deletion = s.deletion := congrArg (fun parts => parts.2.2.1) h.same
  have hjobs : s'.jobs = s.jobs := congrArg (fun parts => parts.2.2.2.1) h.same
  have hoverlapped : s'.record.overlapped = s.record.overlapped :=
    congrArg (fun parts => parts.2.2.2.2) h.same
  constructor
  · exact fun k digest path hobject => (hobjects k digest path hobject).1
  · intro hfalse k digest path hobject
    rw [hoverlapped] at hfalse
    rcases (hobjects k digest path hobject).2 with hold | htrue | hknown
    · exact h.known (hs.known hfalse k digest path hold)
    · cases hfalse.symm.trans htrue
    · exact h.known hknown
  · rw [hjobs]
    exact hs.payloads
  · rw [hdeletion]
    exact hs.cleanups
  · rw [hjobs]
    exact hs.settled

omit [Unicode] [Hashing] in
theorem Leaves.locked (h : Leaves s s')
    (hs : ∀ r t, s.deleting r = some t → s.rowLocks (.revision r) = some t) :
    ∀ r t, s'.deleting r = some t → s'.rowLocks (.revision r) = some t := by
  have hdeleting : s'.deleting = s.deleting := congrArg (fun parts => parts.2.1) h.same
  have hrowLocks : s'.rowLocks = s.rowLocks := congrArg (fun parts => parts.1) h.same
  rwa [hdeleting, hrowLocks]

/-- **A change of rows** that leaves the objects: a row that is to have a tree from then on has
it. -/
theorem Safe.of_rows (hlocks : OwnLocks t s s')
    (hkeys : ∀ p k, keyOf s' p = some k → keyOf s p = some k)
    (hobjects : s'.objects = s.objects) (hnext : s'.revisions.next = s.revisions.next)
    (hrows : ∀ r row', s'.revisions.row r = some row' → ∃ row, s.revisions.row r = some row ∧
      Continues row row' ∧ (Safekept s → row'.HasTree → row.HasTree ∨ Grounded s row))
    (hpointer : ∀ p q, pointer s' p = some q → Safekept s → pointer s p = some q ∨ Finished q s)
    (hlocked : Safekept s → ∀ r t, s'.deleting r = some t → s'.rowLocks (.revision r) = some t)
    (horderly : Safekept s → Orderly t s s')
    (haccounted : Safekept s → Accounted s → Accounted s') : Safe t s s' where
  locks := hlocks
  keys := hkeys
  next := hnext.ge
  rows r row' hrow' := by
    obtain ⟨row, hrow, hsame, -⟩ := hrows r row' hrow'
    exact .inl ⟨row, hrow, hsame⟩
  objects k digest path := .inl (by rw [hobjects])
  orderly := horderly
  accounted := haccounted
  safekept hs := by
    constructor
    · intro r row' hrow' htree'
      obtain ⟨row, hrow, hsame, htree⟩ := hrows r row' hrow'
      have hgrounded : Grounded s row := by
        rcases htree hs htree' with htree | hgrounded
        · exact hs.intact r row hrow htree
        · exact hgrounded
      exact hgrounded.congr hsame hkeys fun k digest path => by rw [hobjects]
    · intro r row' hrow'
      obtain ⟨row, hrow, hsame, -⟩ := hrows r row' hrow'
      unfold RevisionRow.Addressed
      rw [hsame.digest, hsame.manifest]
      exact hs.addressed r row hrow
    · intro r row' hrow'
      obtain ⟨row, hrow, hsame, -⟩ := hrows r row' hrow'
      rw [hsame.manifest]
      exact hs.plain r row hrow
    · intro p q hq
      have hfinished : Finished q s := by
        rcases hpointer p q hq hs with hq | hfinished
        · exact hs.finished p q hq
        · exact hfinished
      refine ⟨hnext ▸ hfinished.1, fun row' hrow' => ?_⟩
      obtain ⟨row, hrow, hsame, -⟩ := hrows q row' hrow'
      exact hsame.stored (hfinished.2 row hrow)
    · intro r row' hrow'
      obtain ⟨row, hrow, hsame, -⟩ := hrows r row' hrow'
      obtain ⟨k, hkey⟩ := Option.isSome_iff_exists.mp (hs.owned r row hrow)
      rw [(horderly hs).homes r row' hrow' k (hsame.project ▸ hkey)]
      rfl
    · exact hlocked hs

/-- The same of a step that leaves deletions and cleanups alone. -/
theorem Safe.of_leaves (hleaves : Leaves s s') (hlocks : OwnLocks t s s')
    (hkeys : ∀ p k, keyOf s' p = some k → keyOf s p = some k)
    (hobjects : s'.objects = s.objects) (hnext : s'.revisions.next = s.revisions.next)
    (hrows : ∀ r row', s'.revisions.row r = some row' → ∃ row, s.revisions.row r = some row ∧
      Continues row row' ∧ (Safekept s → row'.HasTree → row.HasTree ∨ Grounded s row))
    (hpointer : ∀ p q, pointer s' p = some q → Safekept s → pointer s p = some q ∨ Finished q s) :
    Safe t s s' := by
  refine .of_rows hlocks hkeys hobjects hnext hrows hpointer (fun hs => hleaves.locked hs.locked)
    (fun _ => hleaves.orderly) fun _ hs => hleaves.accounted (fun k digest path hobject => ?_) hs
  rw [hobjects] at hobject
  exact ⟨hs.listed k digest path hobject, .inl hobject⟩

/-- Only what no row and no object is about has changed. -/
theorem Safe.of_parts (hlocks : OwnLocks t s s') (hprojects : s'.projects = s.projects)
    (hrevisions : s'.revisions = s.revisions) (hobjects : s'.objects = s.objects)
    (hlocked : Safekept s → ∀ r t, s'.deleting r = some t → s'.rowLocks (.revision r) = some t)
    (horderly : Safekept s → Orderly t s s')
    (haccounted : Safekept s → Accounted s → Accounted s') : Safe t s s' := by
  refine .of_rows hlocks (fun p k hkey => ?_) hobjects (by rw [hrevisions])
    (fun r row hrow => ⟨row, hrevisions ▸ hrow, .refl, fun _ htree => .inl htree⟩)
    (fun p q hq _ => .inl ?_) hlocked horderly haccounted
  · rwa [keyOf, hprojects] at hkey
  · rwa [pointer, hprojects] at hq

theorem Safe.of_eq (hlocks : OwnLocks t s s') (hprojects : s'.projects = s.projects)
    (hrevisions : s'.revisions = s.revisions) (hobjects : s'.objects = s.objects)
    (hledger : ledger s' = ledger s) : Safe t s s' := by
  have hleaves : Leaves s s' := .of_eq hprojects hrevisions hledger
  refine .of_parts hlocks hprojects hrevisions hobjects (fun hs => hleaves.locked hs.locked)
    (fun _ => hleaves.orderly) fun _ hs => hleaves.accounted (fun k digest path hobject => ?_) hs
  rw [hobjects] at hobject
  exact ⟨hs.listed k digest path hobject, .inl hobject⟩

theorem Safe.refl : Safe t s s := .of_eq .refl rfl rfl rfl rfl

/-- **An update of one revision.** -/
theorem Safe.modify {change : RevisionRow → RevisionRow}
    (h : ∀ row, s.revisions.row r = some row → Continues row (change row) ∧
      (Safekept s → (change row).HasTree → row.HasTree ∨ Grounded s row)) :
    Safe t s (s.modifyRevision r change) := by
  refine .of_leaves ⟨rfl, fun q row hrow => ?_, fun _ _ hkey => hkey⟩ .refl
    (fun _ _ hkey => hkey) rfl rfl (fun q row' hrow' => ?_) fun _ _ hq _ => .inl hq
  · by_cases hqr : q = r
    · subst hqr
      refine ⟨change row, ?_, (h row hrow).1.project, (h row hrow).1.digest⟩
      exact (Table.row_modify_self ..).trans (congrArg _ hrow)
    · exact ⟨row, (Table.row_modify_of_ne hqr).trans hrow, rfl, rfl⟩
  · obtain ⟨row, hrow, rfl⟩ := Table.row_modify_eq_some hrow'
    refine ⟨row, hrow, ?_⟩
    split_ifs with hqr
    · subst hqr
      exact h row hrow
    · exact ⟨.refl, fun _ htree => .inl htree⟩

/-- **An update of one project**, of its pointer to a finished revision only. -/
theorem Safe.of_project {change : ProjectRow → ProjectRow}
    (hprojects : s'.projects = s.projects.modify p change)
    (hrevisions : s'.revisions = s.revisions) (hobjects : s'.objects = s.objects)
    (hledger : ledger s' = ledger s) (hlocks : OwnLocks t s s')
    (h : ∀ project, s.projects.row p = some project →
      (change project).storageKey = project.storageKey ∧
        ∀ q, (change project).activeRevision = some q →
          project.activeRevision = some q ∨ Finished q s) : Safe t s s' := by
  have hkeys : keyOf s' = keyOf s := by
    funext q
    rw [keyOf, hprojects]
    by_cases hqp : q = p
    · subst hqp
      rw [Table.row_modify_self, keyOf]
      cases hproject : s.projects.row q with
      | none => rfl
      | some project => exact congrArg some (h project hproject).1
    · rw [Table.row_modify_of_ne hqp, keyOf]
  refine .of_leaves ⟨hledger, fun r row hrow => ⟨row, hrevisions ▸ hrow, rfl, rfl⟩,
    fun q k hkey => hkeys ▸ hkey⟩ hlocks (fun q k hkey => hkeys ▸ hkey) hobjects
    (by rw [hrevisions])
    (fun r row hrow => ⟨row, hrevisions ▸ hrow, .refl, fun _ htree => .inl htree⟩)
    fun q i hi _ => ?_
  obtain ⟨project', hproject', hactive⟩ := Option.bind_eq_some_iff.mp hi
  rw [hprojects] at hproject'
  obtain ⟨project, hproject, rfl⟩ := Table.row_modify_eq_some hproject'
  rw [pointer, hproject, Option.bind_some]
  split_ifs at hactive with hqp
  · subst hqp
    exact (h project hproject).2 i hactive
  · exact .inl hactive

/-- **A new revision**, with its tree in storage where it is to have one. -/
theorem Safe.insert {row : RevisionRow} (hproject : (keyOf s row.project).isSome = true)
    (hlocked : row.digest.isSome → Requests.Locked t s row.project)
    (haddressed : row.Addressed) (hplain : ∀ entry ∈ row.manifest, Plain entry.path)
    (hgrounded : row.HasTree → Grounded s row) :
    Safe t s { s with revisions := s.revisions.insert row } := by
  have hleaves : Leaves s { s with revisions := s.revisions.insert row } :=
    ⟨rfl, fun r old hold => ⟨old, Table.row_insert_of_row hold, rfl, rfl⟩, fun _ _ hkey => hkey⟩
  constructor
  · exact .refl
  · exact fun _ _ hkey => hkey
  · exact Nat.le_succ _
  · intro r row' hrow'
    rcases Table.row_insert_eq_some hrow' with ⟨rfl, rfl⟩ | hrow
    · exact .inr ⟨Nat.le_refl _, hlocked⟩
    · exact .inl ⟨row', hrow, .refl⟩
  · exact fun _ _ _ => .inl rfl
  · intro hs
    constructor
    · intro r row' hrow' htree
      rcases Table.row_insert_eq_some hrow' with ⟨rfl, rfl⟩ | hrow
      · exact (hgrounded htree).congr .refl (fun _ _ hkey => hkey) fun _ _ _ => rfl
      · exact (hs.intact r row' hrow htree).congr .refl (fun _ _ hkey => hkey) fun _ _ _ => rfl
    · intro r row' hrow'
      rcases Table.row_insert_eq_some hrow' with ⟨rfl, rfl⟩ | hrow
      · exact haddressed
      · exact hs.addressed r row' hrow
    · intro r row' hrow'
      rcases Table.row_insert_eq_some hrow' with ⟨rfl, rfl⟩ | hrow
      · exact hplain
      · exact hs.plain r row' hrow
    · intro p q hq
      obtain ⟨hlt, hstored⟩ := hs.finished p q hq
      refine ⟨Nat.lt_succ_of_lt hlt, fun row' hrow' => ?_⟩
      rw [show (s.revisions.insert row).row q = s.revisions.row q from
        Table.row_insert_of_lt hlt] at hrow'
      exact hstored row' hrow'
    · intro r row' hrow'
      rcases Table.row_insert_eq_some hrow' with ⟨rfl, rfl⟩ | hrow
      · exact hproject
      · exact hs.owned r row' hrow
    · exact hs.locked
  · exact fun _ => hleaves.orderly
  · exact fun _ hs => hleaves.accounted
      (fun k digest path hobject => ⟨hs.listed k digest path hobject, .inl hobject⟩) hs

/-- **A write or a removal of an object** that no row has in its tree. -/
theorem Safe.setObject (hlock : s.Holds t k) (content : Option Bytes)
    (h : Safekept s → ∀ r row, s.revisions.row r = some row → row.HasTree →
      keyOf s row.project = some k → row.digest = some digest →
        ∀ entry ∈ row.manifest, entry.path ≠ path)
    (hknown : content ≠ none → Listed digest path ∧
      (s.record.overlapped = true ∨ Known k digest s)) :
    Safe t s (s.setObject (.revision k digest path) content) := by
  have hleaves : Leaves s (s.setObject (.revision k digest path) content) := .of_eq rfl rfl rfl
  have hother : ∀ k' digest' path', ObjectKey.revision k' digest' path' ≠
      .revision k digest path → (s.setObject (.revision k digest path) content).objects
        (.revision k' digest' path') = s.objects (.revision k' digest' path') :=
    fun _ _ _ hne => Function.update_of_ne hne _ _
  constructor
  · exact .refl
  · exact fun _ _ hkey => hkey
  · exact Nat.le_refl _
  · exact fun r row hrow => .inl ⟨row, hrow, .refl⟩
  · intro k' digest' path'
    by_cases hkey : k' = k
    · exact .inr (hkey ▸ hlock)
    · exact .inl (hother k' digest' path' fun heq => hkey (by cases heq; rfl))
  · intro hs
    refine ⟨fun r row hrow htree k' hkey digest' hdigest => ?_, hs.addressed, hs.plain, hs.finished,
      hs.owned, hs.locked⟩
    obtain ⟨hdigest_eq, htrusted, hstored⟩ := hs.intact r row hrow htree k' hkey digest' hdigest
    refine ⟨hdigest_eq, htrusted, fun entry hentry => ?_⟩
    unfold World.EntryStored
    rw [hother k' digest' entry.path fun heq => ?_]
    · exact hstored entry hentry
    · injection heq with hk hd hp
      subst hk hd
      exact h hs r row hrow htree hkey hdigest entry hentry hp
  · exact fun _ => hleaves.orderly
  · refine fun _ hs => hleaves.accounted (fun k' digest' path' hobject => ?_) hs
    by_cases heq : ObjectKey.revision k' digest' path' = .revision k digest path
    · cases heq
      have hcontent : content ≠ none := by
        rintro rfl
        exact hobject (Function.update_self ..)
      exact ⟨(hknown hcontent).1, .inr (hknown hcontent).2⟩
    · rw [hother k' digest' path' heq] at hobject
      exact ⟨hs.listed k' digest' path' hobject, .inl hobject⟩

theorem Safe.park {n : ℕ} {content : Option Bytes} :
    Safe t s (s.setObject (.parked n) content) := by
  have hleaves : Leaves s (s.setObject (.parked n) content) := .of_eq rfl rfl rfl
  have hobjects : ∀ k digest path, (s.setObject (.parked n) content).objects
      (.revision k digest path) = s.objects (.revision k digest path) := by
    intro k digest path
    have hne : ObjectKey.revision k digest path ≠ .parked n := nofun
    exact Function.update_of_ne hne content _
  constructor
  · exact .refl
  · exact fun _ _ hkey => hkey
  · exact Nat.le_refl _
  · exact fun r row hrow => .inl ⟨row, hrow, .refl⟩
  · exact fun k digest path => .inl (hobjects k digest path)
  · intro hs
    refine ⟨fun r row hrow htree => ?_, hs.addressed, hs.plain, hs.finished, hs.owned, hs.locked⟩
    exact (hs.intact r row hrow htree).congr .refl (fun _ _ hkey => hkey) hobjects
  · exact fun _ => hleaves.orderly
  · refine fun _ hs => hleaves.accounted (fun k digest path hobject => ?_) hs
    rw [hobjects] at hobject
    exact ⟨hs.listed k digest path hobject, .inl hobject⟩

/-! ## What a thread can rely on -/

theorem Safe.invariants (h : Safe t s s') (hs : Safekept s ∧ Accounted s) :
    Safekept s' ∧ Accounted s' := ⟨h.safekept hs.1, h.accounted hs.1 hs.2⟩

/-- What is finished stays so, as no number is given out twice. -/
theorem Safe.finished (h : Safe t s s') (hq : Finished q s) : Finished q s' := by
  refine ⟨Nat.lt_of_lt_of_le hq.1 h.next, fun row' hrow' => ?_⟩
  rcases h.rows q row' hrow' with ⟨row, hrow, hsame⟩ | ⟨hnew, -⟩
  · exact hsame.stored (hq.2 row hrow)
  · exact absurd hq.1 (Nat.not_lt.mpr hnew)

/-- The revision names what this row does, if it is still there. -/
def Names (r : Id) (row : RevisionRow) (s : World) : Prop :=
  r < s.revisions.next ∧ ∀ row', s.revisions.row r = some row' →
    row'.project = row.project ∧ row'.digest = row.digest ∧ row'.manifest = row.manifest

omit [Unicode] [Hashing] in
theorem names_of_row {row : RevisionRow} (h : s.revisions.row r = some row) : Names r row s := by
  refine ⟨Table.lt_next_of_row h, fun row' hrow' => ?_⟩
  obtain rfl := Option.some.inj (h.symm.trans hrow')
  exact ⟨rfl, rfl, rfl⟩

theorem Safe.names {row : RevisionRow} (h : Safe t s s') (hr : Names r row s) : Names r row s' := by
  refine ⟨Nat.lt_of_lt_of_le hr.1 h.next, fun row' hrow' => ?_⟩
  rcases h.rows r row' hrow' with ⟨row₀, hrow, hsame⟩ | ⟨hnew, -⟩
  · obtain ⟨hproject, hdigest, hmanifest⟩ := hr.2 row₀ hrow
    exact ⟨hsame.project.trans hproject, hsame.digest.trans hdigest,
      hsame.manifest.trans hmanifest⟩
  · exact absurd hr.1 (Nat.not_lt.mpr hnew)

/-- The project has this storage key, if it is still there. -/
def Homed (p : Id) (k : StorageKey) (s : World) : Prop := ∀ k', keyOf s p = some k' → k' = k

theorem Safe.homed (h : Safe t s s') (hp : Homed p k s) : Homed p k s' :=
  fun k' hkey => hp k' (h.keys p k' hkey)

/-- **What lasts** for a thread: the changes of others, and its own of anything but locks, objects
and cleanups, leave it alone. -/
def Lasting (t : ThreadId) (assertion : World → Prop) : Prop :=
  ∀ u s s', Safe u s s' →
    (u = t → s'.locks = s.locks ∧ s'.objects = s.objects ∧ s'.jobs = s.jobs) →
      assertion s → assertion s'

theorem Lasting.stable {assertion : World → Prop} (h : Lasting t assertion) :
    Stable Safe t assertion := fun u s s' hne hsafe => h u s s' hsafe fun heq => absurd heq hne

theorem Lasting.and {assertion other : World → Prop} (h : Lasting t assertion)
    (h' : Lasting t other) : Lasting t fun s => assertion s ∧ other s :=
  fun u s s' hsafe hown hs => ⟨h u s s' hsafe hown hs.1, h' u s s' hsafe hown hs.2⟩

/-- What everybody keeps lasts. -/
theorem lasting_of {assertion : World → Prop}
    (h : ∀ u s s', Safe u s s' → assertion s → assertion s') : Lasting t assertion :=
  fun u s s' hsafe _ => h u s s' hsafe

theorem lasting_safekept : Lasting t Safekept := lasting_of fun _ _ _ h => h.safekept

theorem lasting_names {row : RevisionRow} : Lasting t (Names r row) :=
  lasting_of fun _ _ _ h => h.names

theorem lasting_homed : Lasting t (Homed p k) := lasting_of fun _ _ _ h => h.homed

theorem lasting_holds : Lasting t fun s => s.Holds t k := by
  intro u s s' hsafe hown
  rintro ⟨n, hlock⟩
  by_cases hu : u = t
  · exact ⟨n, by rw [(hown hu).1, hlock]⟩
  · exact ⟨n, (hsafe.locks k t n (Ne.symm hu)).mpr hlock⟩

/-- The objects of a project whose lock is held are not another's to change. -/
theorem Safe.objects_of_holds (h : Safe u s s') (hne : u ≠ t) (hlock : s.Holds t k) :
    s'.objects (.revision k digest path) = s.objects (.revision k digest path) := by
  rcases h.objects k digest path with heq | ⟨n, hother⟩
  · exact heq
  · obtain ⟨m, hown⟩ := hlock
    rw [hown] at hother
    cases hother
    exact absurd rfl hne

theorem keepsObjects {assertion : World → Prop} (h : Stable Safe t assertion)
    (hlock : ∀ s, assertion s → s.Holds t k) : KeepsObjects Safe t k assertion := by
  intro about habout u s s' hne hsafe hs
  refine ⟨h u s s' hne hsafe hs.1, habout s s' (fun digest path => ?_) hs.2⟩
  exact hsafe.objects_of_holds hne (hlock s hs.1)

/-- Under the lock of a project what was verified of its objects stays so. -/
theorem lasting_verified {manifest : List ManifestEntry} :
    Lasting t fun s => s.Holds t k ∧ s.Verified k digest manifest := by
  rintro u s s' hsafe hown ⟨hlock, hverified⟩
  have hobjects : ∀ path, s'.objects (.revision k digest path) =
      s.objects (.revision k digest path) := by
    intro path
    by_cases hu : u = t
    · rw [(hown hu).2.1]
    · exact hsafe.objects_of_holds hu hlock
  refine ⟨lasting_holds u s s' hsafe hown hlock, hverified.digest_eq, hverified.trusted, ?_⟩
  intro entry hentry
  simpa only [World.EntryStored, hobjects] using hverified.tree entry hentry

end Changes

end Storehouse

end NetBoxScripts
