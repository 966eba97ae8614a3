import NetBoxScripts.Services.Safekeeping

/-!
# Accounting for content

What a deletion has to know before it commits, and what a cleanup has to know before it comes to its
end, for content to stay accounted for: that each row's content was checked, and is named by a
cleanup or by a revision that nobody deletes unnoticed.

## Main definitions

* `Covered`: content that stays known when a deletion commits
* `Checked`: what a deletion knows of a row it has checked
* `Committable`: what it knows when it commits

## Main results

* `Safe.close`, `Safe.deleteRows`, `Safe.checkReferences`, `Safe.commitDeletion`: the steps of a
  deletion
* `Covered.step`: others leave covered what a deletion has covered
* `checked_checkReferences`: a check covers the content of its row
* `Safe.settle`, `Safe.complete`: the steps of a cleanup
-/

namespace NetBoxScripts

namespace Storehouse

open Lifecycle (pointer keyOf OwnLocks)

section Transactions

variable [Unicode] [Hashing] {t u : ThreadId} {s s' : World} {p q r : Id} {k : StorageKey}
  {digest path : PyStr} {payload : CleanupPayload}

omit [Unicode] in
/-- The paths of a manifest with the digest are those that it lists. -/
theorem Listed.mem {manifest : List ManifestEntry} (h : Listed digest path) (hfree : CollisionFree)
    (hreadable : ∀ entry ∈ manifest, entry.Readable) (hdigest : digest = manifestDigest manifest) :
    path ∈ manifest.map ManifestEntry.path := by
  obtain ⟨-, other, hother, hdigest', hpath⟩ := h
  have hperm := perm_of_manifestDigest_eq hfree hother hreadable (hdigest'.symm.trans hdigest)
  exact (hperm.map _).mem_iff.mp hpath

/-! ## Transactions -/

omit [Unicode] in
/-- A step that changes no row and no cleanup Job. -/
theorem Orderly.of_tables (hprojects : s'.projects = s.projects)
    (hrevisions : s'.revisions = s.revisions) (hjobs : s'.jobs = s.jobs)
    (hoverlapped : s.record.overlapped = true → s'.record.overlapped = true)
    (hdeleting : ∀ r u, u ≠ t → (s'.deleting r = some u ↔ s.deleting r = some u))
    (hdeletion : ∀ u, u ≠ t → s'.deletion u = s.deletion u)
    (hchecks : ∀ k digest, (k, digest) ∈ (s'.deletion t).checked →
      ((k, digest) ∈ (s.deletion t).checked ∧
        ∀ r, s'.deleting r = some t → s.deleting r = some t) ∨
        s'.record.overlapped = true ∨ ¬ s.OverlapsDeletion t k digest) : Orderly t s s' where
  overlapped := hoverlapped
  deleting := hdeleting
  deletion := hdeletion
  checks := hchecks
  gone r row hrow hnone := by
    rw [hrevisions, hrow] at hnone
    cases hnone
  homes r row _ k hkey := by rwa [keyOf, hprojects]
  jobs j job hjob := ⟨job, by rw [hjobs, hjob], rfl, id⟩
  known _ k digest path _ hs := by
    refine .inl ?_
    unfold Known World.Addresses World.storageKeyOf
    rw [hprojects, hrevisions, hjobs]
    exact hs

theorem Accounted.of_tables (hs : Accounted s) (hprojects : s'.projects = s.projects)
    (hrevisions : s'.revisions = s.revisions) (hjobs : s'.jobs = s.jobs)
    (hobjects : s'.objects = s.objects)
    (hoverlapped : s.record.overlapped = true → s'.record.overlapped = true)
    (hcleanups : ∀ t, ∀ payload ∈ (s'.deletion t).cleanups, Inventory payload) :
    Accounted s' := by
  refine ⟨?_, fun hfalse k digest path hobject => ?_, ?_, hcleanups, ?_⟩
  · rw [hobjects]
    exact hs.listed
  · have hbefore : s.record.overlapped = false := by
      by_contra htrue
      rw [hoverlapped (Bool.eq_true_of_not_eq_false htrue)] at hfalse
      cases hfalse
    rw [hobjects] at hobject
    unfold Known World.Addresses World.storageKeyOf
    rw [hprojects, hrevisions, hjobs]
    exact hs.known hbefore k digest path hobject
  · rw [hjobs]
    exact hs.payloads
  · rw [hjobs]
    exact hs.settled

/-- **The end of a transaction**, and that of its process. -/
theorem Safe.close (hlocks : OwnLocks t s s')
    (h : s' = { s.closeTransaction t with locks := s'.locks }) : Safe t s s' := by
  have hdeletion : ∀ u, u ≠ t → s'.deletion u = s.deletion u := by
    intro u hu
    rw [h]
    exact Function.update_of_ne hu ..
  have hempty : s'.deletion t = .empty := by
    rw [h]
    exact Function.update_self ..
  have hdeleting : ∀ r, s'.deleting r = if s.deleting r = some t then none else s.deleting r := by
    intro r
    rw [h]
    rfl
  refine .of_parts hlocks (by rw [h]; rfl) (by rw [h]; rfl) (by rw [h]; rfl)
    (fun hs r u hr => ?_) (fun _ => ?_) fun _ hs => ?_
  · rw [hdeleting] at hr
    split_ifs at hr with hown
    have hrow := hs.locked r u hr
    have hne : ¬ s.rowLocks (.revision r) = some t := fun heq => hown (by
      rw [hrow] at heq
      rw [hr, heq])
    rw [h]
    show (if s.rowLocks (.revision r) = some t then none else _) = _
    rw [if_neg hne, hrow]
  · refine .of_tables (by rw [h]; rfl) (by rw [h]; rfl) (by rw [h]; rfl) (fun htrue => ?_)
      (fun r u hu => ?_) hdeletion fun k digest hchecked => ?_
    · rw [h]
      exact htrue
    · rw [hdeleting]
      split_ifs with hown
      · refine iff_of_false (fun hnone => by cases hnone) fun hother => hu ?_
        exact Option.some.inj (hother.symm.trans hown)
      · rfl
    · rw [hempty] at hchecked
      cases hchecked
  · refine hs.of_tables (by rw [h]; rfl) (by rw [h]; rfl) (by rw [h]; rfl) (by rw [h]; rfl)
      (fun htrue => by rw [h]; exact htrue) fun u payload hpayload => ?_
    by_cases hu : u = t
    · rw [hu, hempty] at hpayload
      cases hpayload
    · rw [hdeletion u hu] at hpayload
      exact hs.cleanups u payload hpayload

/-- **The deletion of rows** that no other transaction has locked. -/
theorem Safe.deleteRows {rows : List Id}
    (hfree : ∀ r ∈ rows, s.rowFree t (.revision r) = true) :
    Safe t s (markDeleted t rows s) := by
  have hempty : (markDeleted t rows s).deletion t = .empty := Function.update_self ..
  have hother : ∀ u, u ≠ t → (markDeleted t rows s).deletion u = s.deletion u :=
    fun u hu => Function.update_of_ne hu ..
  have hrows : ∀ r, (rows.any fun q => RowRef.revision r == .revision q) = decide (r ∈ rows) := by
    intro r
    rw [Bool.eq_iff_iff, List.any_eq_true, decide_eq_true_eq]
    constructor
    · rintro ⟨q, hq, heq⟩
      cases eq_of_beq heq
      exact hq
    · exact fun hr => ⟨r, hr, beq_self_eq_true _⟩
  refine .of_parts .refl rfl rfl rfl (fun hs r u hr => ?_) (fun hs => ?_) fun _ hs => ?_
  · show (if (rows.any fun q => RowRef.revision r == .revision q) = true then some t else _) = _
    rw [hrows]
    change ite _ _ _ = some u at hr
    split_ifs at hr with hmem
    · rw [if_pos (decide_eq_true hmem), hr]
    · rw [if_neg (by simpa using hmem)]
      exact hs.locked r u hr
  · refine .of_tables rfl rfl rfl id (fun r u hu => ?_) hother fun k digest hchecked => ?_
    · show ite _ _ _ = some u ↔ _
      split_ifs with hmem
      · refine iff_of_false (fun heq => hu (Option.some.inj heq).symm) fun hother => hu ?_
        have hrow := hfree r hmem
        rw [World.rowFree, hs.locked r u hother] at hrow
        exact eq_of_beq hrow
      · rfl
    · rw [hempty] at hchecked
      cases hchecked
  · refine hs.of_tables rfl rfl rfl rfl id fun u payload hpayload => ?_
    by_cases hu : u = t
    · rw [hu, hempty] at hpayload
      cases hpayload
    · rw [hother u hu] at hpayload
      exact hs.cleanups u payload hpayload

omit [Unicode] [Hashing] in
theorem deletion_checkReferences : (checkReferences t r payload s).deletion t =
    ⟨(payload.storageKey, payload.digest) :: (s.deletion t).checked,
      if s.SiblingVisible t r payload.storageKey payload.digest then (s.deletion t).cleanups
      else (s.deletion t).cleanups ++ [payload]⟩ :=
  Function.update_self ..

/-- **A reference check**, with the cleanup it records. -/
theorem Safe.checkReferences (hinventory : Inventory payload) :
    Safe t s (Storehouse.checkReferences t r payload s) := by
  have hother : ∀ u, u ≠ t → (Storehouse.checkReferences t r payload s).deletion u = s.deletion u :=
    fun u hu => Function.update_of_ne hu ..
  refine .of_parts .refl rfl rfl rfl (fun hs => hs.locked) (fun _ => ?_) fun _ hs => ?_
  · refine .of_tables rfl rfl rfl (fun htrue => ?_) (fun _ _ _ => .rfl) hother
      fun k digest hchecked => ?_
    · show (_ || _) = true
      rw [htrue, Bool.true_or]
    · rw [deletion_checkReferences, List.mem_cons] at hchecked
      rcases hchecked with heq | hold
      · cases heq
        by_cases hoverlaps : s.OverlapsDeletion t payload.storageKey payload.digest
        · refine .inr (.inl ?_)
          show (_ || _) = true
          rw [decide_eq_true hoverlaps, Bool.or_true]
        · exact .inr (.inr hoverlaps)
      · exact .inl ⟨hold, fun _ hr => hr⟩
  · refine hs.of_tables rfl rfl rfl rfl (fun htrue => ?_) fun u other hmem => ?_
    · show (_ || _) = true
      rw [htrue, Bool.true_or]
    · by_cases hu : u = t
      · subst hu
        rw [deletion_checkReferences] at hmem
        dsimp only at hmem
        split_ifs at hmem
        · exact hs.cleanups u other hmem
        · rcases List.mem_append.mp hmem with hold | hnew
          · exact hs.cleanups u other hold
          · rwa [List.mem_singleton.mp hnew]
      · rw [hother u hu] at hmem
        exact hs.cleanups u other hmem

/-! ## Deletions -/

omit [Unicode] [Hashing] in
/-- **Content that stays known** when the deletion of `t` commits, unless two overlapped: by a cleanup
that is recorded with it, or by a revision that no transaction deletes without a check to come. -/
def Covered (t : ThreadId) (k : StorageKey) (digest : PyStr) (s : World) : Prop :=
  s.record.overlapped = true ∨
    (∃ payload ∈ (s.deletion t).cleanups, payload.storageKey = k ∧ payload.digest = digest) ∨
      ∃ r row, s.revisions.row r = some row ∧ s.Addresses row k digest ∧
        s.deleting r ≠ some t ∧ ∀ u, s.deleting r = some u → (k, digest) ∉ (s.deletion u).checked

/-- Content that a row of the deletion has stays covered by what others do. -/
theorem Covered.step {row : RevisionRow} (hsafe : Safe u s s') (hkept : Safekept s) (hne : u ≠ t)
    (hpath : Listed digest path) (hrow : s.revisions.row r = some row)
    (hdeleting : s.deleting r = some t) (haddresses : s.Addresses row k digest)
    (h : Covered t k digest s) : Covered t k digest s' := by
  have horderly := hsafe.orderly hkept
  by_cases hoverlapped : s'.record.overlapped = true
  · exact .inl hoverlapped
  rcases h with htrue | ⟨payload, hpayload, hnames⟩ | ⟨q, other, hq, hother, hown, hchecked⟩
  · exact .inl (horderly.overlapped htrue)
  · refine .inr (.inl ⟨payload, ?_, hnames⟩)
    rwa [horderly.deletion t hne.symm]
  · -- the other row is there, as nobody takes it without a check
    cases hq' : s'.revisions.row q with
    | none =>
      obtain ⟨htaken, hcheck⟩ := horderly.gone q other hq hq'
      exact absurd (hcheck k digest path hother hpath) (hchecked u htaken)
    | some other' =>
      have hsame : Continues other other' := by
        rcases hsafe.rows q other' hq' with ⟨old, hold, hsame⟩ | ⟨hnew, -⟩
        · obtain rfl := Option.some.inj (hold.symm.trans hq)
          exact hsame
        · exact absurd (Table.lt_next_of_row hq) (Nat.not_lt.mpr hnew)
      have hkey : keyOf s other'.project = some k := hsame.project ▸ hother.1
      refine .inr (.inr ⟨q, other', hq', ⟨horderly.homes q other' hq' k hkey,
        hsame.digest.trans hother.2⟩, fun htaken => ?_, fun v htaken hmem => ?_⟩)
      · exact hown ((horderly.deleting q t hne.symm).mp htaken)
      · by_cases hv : v = u
        · -- a check of this content would overlap with the deletion of `t`
          subst hv
          rcases horderly.checks k digest hmem with ⟨hold, hsame⟩ | htrue | hfalse
          · exact hchecked v (hsame q htaken) hold
          · exact hoverlapped htrue
          · refine hfalse ⟨(r, row), Table.mem_entries.mpr hrow, haddresses, ?_⟩
            rw [hdeleting]
            exact ⟨Option.some_ne_none t, fun heq => hne (Option.some.inj heq).symm⟩
        · rw [horderly.deletion v hv] at hmem
          exact hchecked v ((horderly.deleting q v hv).mp htaken) hmem

/-- What a deletion knows of a row once it has checked it. -/
def Checked (t : ThreadId) (r : Id) (s : World) : Prop :=
  ∀ row k digest path, s.revisions.row r = some row → s.deleting r = some t →
    s.Addresses row k digest → Listed digest path →
      (k, digest) ∈ (s.deletion t).checked ∧ Covered t k digest s

theorem Checked.step (hsafe : Safe u s s') (hkept : Safekept s) (hne : u ≠ t)
    (hlt : r < s.revisions.next) (h : Checked t r s) : Checked t r s' := by
  have horderly := hsafe.orderly hkept
  intro row' k digest path hrow' hdeleting' haddresses' hpath
  have hdeleting := (horderly.deleting r t hne.symm).mp hdeleting'
  rcases hsafe.rows r row' hrow' with ⟨row, hrow, hsame⟩ | ⟨hnew, -⟩
  · have haddresses : s.Addresses row k digest := by
      refine ⟨?_, hsame.digest ▸ haddresses'.2⟩
      have hkey := hsafe.keys row'.project k haddresses'.1
      rwa [hsame.project] at hkey
    obtain ⟨hchecked, hcovered⟩ := h row k digest path hrow hdeleting haddresses hpath
    refine ⟨?_, hcovered.step hsafe hkept hne hpath hrow hdeleting haddresses⟩
    rwa [horderly.deletion t hne.symm]
  · exact absurd hlt (Nat.not_lt.mpr hnew)

omit [Unicode] in
/-- A check leaves what was checked before. -/
theorem Checked.checkReferences (h : Checked t q s) :
    Checked t q (Storehouse.checkReferences t r payload s) := by
  intro row k digest path hrow hdeleting haddresses hpath
  obtain ⟨hchecked, hcovered⟩ := h row k digest path hrow hdeleting haddresses hpath
  refine ⟨?_, ?_⟩
  · rw [deletion_checkReferences]
    exact List.mem_cons_of_mem _ hchecked
  · rcases hcovered with htrue | ⟨other, hother, hnames⟩ | ⟨i, row', hrow', hnames, hne, hother⟩
    · refine .inl ?_
      show (_ || _) = true
      rw [htrue, Bool.true_or]
    · refine .inr (.inl ⟨other, ?_, hnames⟩)
      rw [deletion_checkReferences]
      dsimp only
      split_ifs
      · exact hother
      · exact List.mem_append_left _ hother
    · refine .inr (.inr ⟨i, row', hrow', hnames, hne, fun u hu => ?_⟩)
      have hut : u ≠ t := fun heq => hne (heq ▸ hu)
      rw [show (Storehouse.checkReferences t r payload s).deletion u = s.deletion u from
        Function.update_of_ne hut ..]
      exact hother u hu

omit [Unicode] in
/-- **The check of a row** whose content is that of the payload: a revision is seen that nobody
deletes, a deletion overlaps, or the cleanup is recorded. -/
theorem checked_checkReferences (hpayload : ∀ row k digest, s.revisions.row r = some row →
    s.Addresses row k digest → payload.storageKey = k ∧ payload.digest = digest) :
    Checked t r (Storehouse.checkReferences t r payload s) := by
  intro row k digest path hrow _ haddresses _
  obtain ⟨rfl, rfl⟩ := hpayload row k digest hrow haddresses
  refine ⟨?_, ?_⟩
  · rw [deletion_checkReferences]
    exact List.mem_cons_self
  · by_cases hoverlaps : s.OverlapsDeletion t payload.storageKey payload.digest
    · refine .inl ?_
      show (_ || _) = true
      rw [decide_eq_true hoverlaps, Bool.or_true]
    · by_cases hvisible : s.SiblingVisible t r payload.storageKey payload.digest
      · obtain ⟨⟨i, other⟩, hmem, -, hne, hother⟩ := hvisible
        refine .inr (.inr ⟨i, other, Table.mem_entries.mp hmem, hother, hne, fun u hu _ => ?_⟩)
        refine hoverlaps ⟨(i, other), hmem, hother, fun hnone => ?_, hne⟩
        cases hnone.symm.trans hu
      · refine .inr (.inl ⟨payload, ?_, rfl, rfl⟩)
        rw [deletion_checkReferences]
        dsimp only
        rw [if_neg hvisible]
        exact List.mem_append_right _ List.mem_cons_self

omit [Unicode] [Hashing] in
theorem row_insertAll {payloads : List CleanupPayload} {jobs : Table CleanupJob} {j : Id}
    {job : CleanupJob} (h : jobs.row j = some job) :
    (payloads.foldl (fun jobs payload => jobs.insert ⟨payload, false, false⟩) jobs).row j =
      some job := by
  induction payloads generalizing jobs with
  | nil => exact h
  | cons payload payloads ih => exact ih (Table.row_insert_of_row h)

omit [Unicode] [Hashing] in
theorem exists_row_insertAll {payloads : List CleanupPayload} (jobs : Table CleanupJob)
    (h : payload ∈ payloads) : ∃ j, (payloads.foldl
      (fun jobs payload => jobs.insert ⟨payload, false, false⟩) jobs).row j =
        some ⟨payload, false, false⟩ := by
  induction payloads generalizing jobs with
  | nil => cases h
  | cons first payloads ih =>
    rcases List.mem_cons.mp h with rfl | hrest
    · have hnew : (jobs.insert ⟨payload, false, false⟩).row jobs.next =
          some ⟨payload, false, false⟩ := Table.row_insert_next
      refine ⟨jobs.next, ?_⟩
      rw [List.foldl_cons]
      exact row_insertAll hnew
    · exact ih _ hrest

omit [Unicode] [Hashing] in
theorem row_insertAll_eq_some {payloads : List CleanupPayload} {jobs : Table CleanupJob} {j : Id}
    {job : CleanupJob} (h : (payloads.foldl
      (fun jobs payload => jobs.insert ⟨payload, false, false⟩) jobs).row j = some job) :
    jobs.row j = some job ∨ ∃ payload ∈ payloads, job = ⟨payload, false, false⟩ := by
  induction payloads generalizing jobs with
  | nil => exact .inl h
  | cons first payloads ih =>
    rcases ih h with hrow | ⟨payload, hpayload, heq⟩
    · rcases Table.row_insert_eq_some hrow with ⟨-, rfl⟩ | hold
      · exact .inr ⟨first, List.mem_cons_self, rfl⟩
      · exact .inl hold
    · exact .inr ⟨payload, List.mem_cons_of_mem _ hpayload, heq⟩

omit [Unicode] [Hashing] in
/-- The revisions after the commit of a deletion. -/
theorem row_commitDeletion {project : Option Id} {row : RevisionRow} :
    (s.commitDeletion t project).revisions.row r = some row ↔
      s.revisions.row r = some row ∧ s.deleting r ≠ some t := by
  rw [World.commitDeletion, Table.row_eraseAll_eq_some, beq_eq_false_iff_ne, and_comm]

omit [Unicode] [Hashing] in
/-- The projects after it. -/
theorem project_commitDeletion {project : Option Id} {row' : ProjectRow}
    (h : (s.commitDeletion t project).projects.row p = some row') :
    ∃ row, s.projects.row p = some row ∧ row'.storageKey = row.storageKey ∧
      ∀ q, row'.activeRevision = some q → row.activeRevision = some q := by
  obtain ⟨row, hrow, rfl⟩ := Option.map_eq_some_iff.mp h
  obtain ⟨-, hrow⟩ := Table.row_eraseAll_eq_some.mp hrow
  exact ⟨row, hrow, rfl, fun q hq => (Option.filter_eq_some_iff.mp hq).1⟩

omit [Unicode] [Hashing] in
theorem keyOf_of_commitDeletion {project : Option Id}
    (h : keyOf (s.commitDeletion t project) p = some k) : keyOf s p = some k := by
  obtain ⟨row', hrow', rfl⟩ := Option.map_eq_some_iff.mp h
  obtain ⟨row, hrow, hkey, -⟩ := project_commitDeletion hrow'
  rw [keyOf, hrow, hkey]
  rfl

omit [Unicode] [Hashing] in
/-- A project that is not deleted keeps its key. -/
theorem keyOf_commitDeletion {project : Option Id} (hne : project ≠ some p)
    (h : keyOf s p = some k) : keyOf (s.commitDeletion t project) p = some k := by
  obtain ⟨owner, howner, rfl⟩ := Option.map_eq_some_iff.mp h
  have hkept : (project == some p) = false := by simpa using hne
  exact Option.map_eq_some_iff.mpr ⟨_, Option.map_eq_some_iff.mpr ⟨owner,
    Table.row_eraseAll_eq_some.mpr ⟨hkept, howner⟩, rfl⟩, rfl⟩

omit [Unicode] [Hashing] in
theorem deletion_commitDeletion_of_ne {project : Option Id} (hu : u ≠ t) :
    (s.commitDeletion t project).deletion u = s.deletion u :=
  Function.update_of_ne hu ..

omit [Unicode] [Hashing] in
theorem deletion_commitDeletion_self {project : Option Id} :
    (s.commitDeletion t project).deletion t = .empty :=
  Function.update_self ..

/-- **What a deletion knows when it commits**: it takes each revision of the project with it, and has
checked what it takes. -/
structure Committable (t : ThreadId) (project : Option Id) (s : World) : Prop where
  orphans : ∀ r row, s.revisions.row r = some row → project = some row.project →
    s.deleting r = some t
  checked : ∀ r, Checked t r s

variable {project : Option Id}

omit [Unicode] in
/-- A revision that stays is in its project. -/
theorem Committable.home {row : RevisionRow} (h : Committable t project s)
    (hrow : s.revisions.row r = some row) (hne : s.deleting r ≠ some t)
    (hkey : keyOf s row.project = some k) :
    keyOf (s.commitDeletion t project) row.project = some k :=
  keyOf_commitDeletion (fun heq => hne (h.orphans r row hrow heq)) hkey

omit [Unicode] in
/-- What was known stays so: each content that the deletion takes is covered. -/
theorem Committable.known (h : Committable t project s) (hquiet : s.record.overlapped = false)
    (hpath : Listed digest path) (hs : Known k digest s) :
    Known k digest (s.commitDeletion t project) := by
  have hnamed : ∀ {q row}, s.revisions.row q = some row → s.deleting q ≠ some t →
      s.Addresses row k digest → Known k digest (s.commitDeletion t project) :=
    fun {q row} hrow hne hnames =>
      .inl ⟨q, row, row_commitDeletion.mpr ⟨hrow, hne⟩, h.home hrow hne hnames.1, hnames.2⟩
  rcases hs with ⟨r, row, hrow, hnames⟩ | ⟨j, job, hjob, hnames⟩
  · by_cases hown : s.deleting r = some t
    · obtain ⟨-, hcovered⟩ := h.checked r row k digest path hrow hown hnames hpath
      rcases hcovered with htrue | ⟨payload, hpayload, hnames⟩ | ⟨q, other, hq, hother, hne, -⟩
      · cases hquiet.symm.trans htrue
      · obtain ⟨j, hjob⟩ := exists_row_insertAll s.jobs hpayload
        exact .inr ⟨j, _, hjob, rfl, hnames⟩
      · exact hnamed hq hne hother
    · exact hnamed hrow hown hnames
  · exact .inr ⟨j, job, row_insertAll hjob, hnames⟩

omit [Unicode] in
theorem Committable.orderly (h : Committable t project s) :
    Orderly t s (s.commitDeletion t project) where
  overlapped := id
  deleting r u hu := by
    show (if s.deleting r = some t then none else s.deleting r) = some u ↔ _
    split_ifs with hown
    · refine iff_of_false (fun hnone => by cases hnone) fun hother => hu ?_
      exact Option.some.inj (hother.symm.trans hown)
    · rfl
  deletion u hu := deletion_commitDeletion_of_ne hu
  checks k digest hmem := by
    rw [deletion_commitDeletion_self] at hmem
    cases hmem
  gone r row hrow hnone := by
    have hown : s.deleting r = some t := by
      by_contra hne
      cases (row_commitDeletion.mpr ⟨hrow, hne⟩).symm.trans hnone
    exact ⟨hown, fun k digest path hnames hpath =>
      (h.checked r row k digest path hrow hown hnames hpath).1⟩
  homes r row hrow k hkey := by
    obtain ⟨hold, hne⟩ := row_commitDeletion.mp hrow
    exact h.home hold hne hkey
  jobs j job hjob := ⟨job, row_insertAll hjob, rfl, id⟩
  known hquiet k digest path hpath hs := .inl (h.known hquiet hpath hs)

theorem Committable.accounted (h : Committable t project s) (hs : Accounted s) :
    Accounted (s.commitDeletion t project) where
  listed := hs.listed
  known hquiet k digest path hobject :=
    h.known hquiet (hs.listed k digest path hobject) (hs.known hquiet k digest path hobject)
  payloads j job hjob := by
    rcases row_insertAll_eq_some hjob with hold | ⟨payload, hpayload, rfl⟩
    · exact hs.payloads j job hold
    · exact hs.cleanups t payload hpayload
  cleanups u payload hpayload := by
    by_cases hu : u = t
    · rw [hu, deletion_commitDeletion_self] at hpayload
      cases hpayload
    · rw [deletion_commitDeletion_of_ne hu] at hpayload
      exact hs.cleanups u payload hpayload
  settled j job hjob hcompleted := by
    rcases row_insertAll_eq_some hjob with hold | ⟨payload, -, rfl⟩
    · exact hs.settled j job hold hcompleted
    · cases hcompleted

/-- **The commit of a deletion.** -/
theorem Safe.commitDeletion (h : Committable t project s) :
    Safe t s (s.commitDeletion t project) := by
  refine .of_rows .refl (fun p k => keyOf_of_commitDeletion) rfl rfl (fun r row hrow => ?_)
    (fun p q hq _ => ?_) (fun hs r u hr => ?_) (fun _ => h.orderly) fun _ => h.accounted
  · exact ⟨row, (row_commitDeletion.mp hrow).1, .refl, fun _ htree => .inl htree⟩
  · obtain ⟨row', hrow', hactive⟩ := Option.bind_eq_some_iff.mp hq
    obtain ⟨row, hrow, -, hpointer⟩ := project_commitDeletion hrow'
    refine .inl ?_
    rw [pointer, hrow]
    exact hpointer q hactive
  · change (if s.deleting r = some t then none else s.deleting r) = some u at hr
    split_ifs at hr
    exact hs.locked r u hr

/-! ## Cleanups -/

/-- **A cleanup comes to its end**: a revision names the content, or its objects are gone. -/
theorem Safe.settle {j : Id} (hfree : CollisionFree) (hlock : s.Holds t payload.storageKey)
    (hpayload : ∀ job, s.jobs.row j = some job → job.payload = payload)
    (h : (∃ r row, s.revisions.row r = some row ∧
        s.Addresses row payload.storageKey payload.digest) ∨
      ∀ path ∈ payload.paths, PathGone payload.storageKey payload.digest s path) :
    Safe t s (settle s j) := by
  have hjobs : ∀ i job', (Storehouse.settle s j).jobs.row i = some job' → ∃ job,
      s.jobs.row i = some job ∧ job'.payload = job.payload ∧ job'.completed = job.completed ∧
        (job.settled = true → job'.settled = true) := by
    intro i job' hjob'
    obtain ⟨job, hjob, rfl⟩ := Table.row_modify_eq_some hjob'
    refine ⟨job, hjob, ?_⟩
    split_ifs
    · exact ⟨rfl, rfl, fun _ => rfl⟩
    · exact ⟨rfl, rfl, id⟩
  have hknown : ∀ k digest, Known k digest s → Known k digest (Storehouse.settle s j) ∨
      k = payload.storageKey ∧ digest = payload.digest ∧
        ∃ job, s.jobs.row j = some job ∧ job.settled = false := by
    rintro k digest (hrow | ⟨i, job, hjob, hsettled, hk, hdigest⟩)
    · exact .inl (.inl hrow)
    · by_cases hi : i = j
      · subst hi
        obtain rfl := hpayload job hjob
        exact .inr ⟨hk.symm, hdigest.symm, job, hjob, hsettled⟩
      · exact .inl (.inr ⟨i, job, (Table.row_modify_of_ne hi).trans hjob, hsettled, hk, hdigest⟩)
  refine .of_parts .refl rfl rfl rfl (fun hs => hs.locked) (fun _ => ?_) fun _ hs => ?_
  · refine ⟨id, fun _ _ _ => .rfl, fun _ _ => rfl, fun _ _ hmem => .inl ⟨hmem, fun _ hr => hr⟩,
      fun r row hrow hnone => ?_, fun _ _ _ _ hkey => hkey, fun i job hjob => ?_,
      fun _ k digest path _ hs => ?_⟩
    · cases hrow.symm.trans hnone
    · by_cases hi : i = j
      · subst hi
        exact ⟨_, (Table.row_modify_self ..).trans (congrArg _ hjob), rfl, fun _ => rfl⟩
      · exact ⟨job, (Table.row_modify_of_ne hi).trans hjob, rfl, id⟩
    · rcases hknown k digest hs with hknown | ⟨rfl, -, job, hjob, hsettled⟩
      · exact .inl hknown
      · refine .inr ⟨hlock, fun heq => ?_⟩
        have hrow := congrArg (fun table => table.row j) heq
        dsimp only [Storehouse.settle] at hrow
        rw [Table.row_modify_self, hjob] at hrow
        cases (congrArg CleanupJob.settled (Option.some.inj hrow)).trans hsettled
  · refine ⟨hs.listed, fun hfalse k digest path hobject => ?_, fun i job' hjob' => ?_, hs.cleanups,
      fun i job' hjob' hcompleted => ?_⟩
    · rcases hknown k digest (hs.known hfalse k digest path hobject) with
        hknown | ⟨rfl, rfl, job, hjob, -⟩
      · exact hknown
      · rcases h with hrow | hgone
        · exact .inl hrow
        · -- a path that the digest lists is one of those that are gone
          obtain ⟨manifest, hreadable, hcanonical, hdigest, hpaths⟩ := hs.payloads j job hjob
          rw [hpayload job hjob] at hdigest hpaths
          have hlisted := (hs.listed _ _ path hobject).mem hfree hreadable hdigest
          obtain ⟨entry, hentry, rfl⟩ := List.mem_map.mp hlisted
          refine absurd (hgone entry.path ?_ entry.path (hcanonical entry hentry)) hobject
          rw [hpaths]
          exact hlisted
    · obtain ⟨job, hjob, heq, -⟩ := hjobs i job' hjob'
      rw [heq]
      exact hs.payloads i job hjob
    · obtain ⟨job, hjob, -, heq, hsettled⟩ := hjobs i job' hjob'
      exact hsettled (hs.settled i job hjob (heq ▸ hcompleted))

/-- **A job is marked as completed** after a run of it came to its end. -/
theorem Safe.complete {j : Id}
    (hsettled : ∀ job, s.jobs.row j = some job → job.settled = true) :
    Safe t s { s with jobs := s.jobs.modify j fun job => { job with completed := true } } := by
  have hrow : ∀ i job, s.jobs.row i = some job → ∃ job',
      (s.jobs.modify j fun job => { job with completed := true }).row i = some job' ∧
        job'.payload = job.payload ∧ job'.settled = job.settled := by
    intro i job hjob
    by_cases hi : i = j
    · subst hi
      exact ⟨_, (Table.row_modify_self ..).trans (congrArg _ hjob), rfl, rfl⟩
    · exact ⟨job, (Table.row_modify_of_ne hi).trans hjob, rfl, rfl⟩
  have hknown : ∀ k digest, Known k digest s → Known k digest
      { s with jobs := s.jobs.modify j fun job => { job with completed := true } } := by
    rintro k digest (hrow' | ⟨i, job, hjob, hfalse, hk, hdigest⟩)
    · exact .inl hrow'
    · obtain ⟨job', hjob', heq, heq'⟩ := hrow i job hjob
      exact .inr ⟨i, job', hjob', heq'.trans hfalse, heq ▸ hk, heq ▸ hdigest⟩
  refine .of_parts .refl rfl rfl rfl (fun hs => hs.locked) (fun _ => ?_) fun _ hs => ?_
  · refine ⟨id, fun _ _ _ => .rfl, fun _ _ => rfl, fun _ _ hmem => .inl ⟨hmem, fun _ hr => hr⟩,
      fun r row hrow' hnone => ?_, fun _ _ _ _ hkey => hkey, fun i job hjob => ?_,
      fun _ k digest path _ hs => .inl (hknown k digest hs)⟩
    · cases hrow'.symm.trans hnone
    · obtain ⟨job', hjob', heq, heq'⟩ := hrow i job hjob
      exact ⟨job', hjob', heq, fun h => heq'.trans h⟩
  · refine ⟨hs.listed, fun hfalse k digest path hobject =>
      hknown k digest (hs.known hfalse k digest path hobject), fun i job' hjob' => ?_, hs.cleanups,
      fun i job' hjob' hcompleted => ?_⟩
    · obtain ⟨job, hjob, rfl⟩ := Table.row_modify_eq_some hjob'
      have hinventory := hs.payloads i job hjob
      split_ifs
      · exact hinventory
      · exact hinventory
    · obtain ⟨job, hjob, rfl⟩ := Table.row_modify_eq_some hjob'
      split_ifs at hcompleted ⊢ with hi
      · subst hi
        exact hsettled job hjob
      · exact hs.settled i job hjob hcompleted

/-! ## What content is of -/

/-- **An object is accounted for** by a revision that has it, or by a cleanup that is to remove it. -/
theorem Accounted.accounts (hs : Accounted s) (hkept : Safekept s) (hfree : CollisionFree)
    (hquiet : s.record.overlapped = false) (hobject : s.objects (.revision k digest path) ≠ none) :
    (∃ r row, s.revisions.row r = some row ∧ s.Addresses row k digest ∧
      path ∈ row.manifest.map ManifestEntry.path) ∨
    ∃ j job, s.jobs.row j = some job ∧ job.completed = false ∧ job.payload.storageKey = k ∧
      job.payload.digest = digest ∧ path ∈ job.payload.paths := by
  have hlisted := hs.listed k digest path hobject
  rcases hs.known hquiet k digest path hobject with
    ⟨r, row, hrow, haddresses⟩ | ⟨j, job, hjob, hopen, rfl, rfl⟩
  · obtain ⟨hdigest, hreadable⟩ := hkept.addressed r row hrow digest haddresses.2
    exact .inl ⟨r, row, hrow, haddresses, hlisted.mem hfree hreadable hdigest⟩
  · obtain ⟨manifest, hreadable, -, hdigest, hpaths⟩ := hs.payloads j job hjob
    have hcompleted : job.completed = false := by
      by_contra htrue
      rw [hs.settled j job hjob (Bool.eq_true_of_not_eq_false htrue)] at hopen
      cases hopen
    refine .inr ⟨j, job, hjob, hcompleted, rfl, rfl, ?_⟩
    rw [hpaths]
    exact hlisted.mem hfree hreadable hdigest

end Transactions

end Storehouse

end NetBoxScripts
