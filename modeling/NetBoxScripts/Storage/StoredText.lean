import NetBoxScripts.Storage.SnapshotText
import NetBoxScripts.Storage.ManifestAcceptance

/-!
# Error records as the database stores them

A rejected source is stored with its error records, in a `jsonb` column. Such a column keeps no
text with U+0000 or with a surrogate alone, and two surrogates that make a pair come back as the one
character they stand for.

## Main definitions

* `jsonbText`: a text as it is stored, or the refusal
* `Plain`: a text of characters that are stored as they are
* `jsonbKept`: a text as it comes back
* `storedErrors`: the error records of a rejected source, as they are stored
* `Recordable`: the paths whose records can be written

## Main results

* `jsonbText_eq_self_iff`: which texts are stored as they are
* `buildManifest_plain`: the records of sources with plain paths are plain
* `NfcKeeps.plain_of_buildManifest`: sources whose records are plain have plain paths
* `recordable_iff`: the sources that are built, with records the database takes
-/

namespace NetBoxScripts

/-! ## Texts -/

/-- A text as `jsonb` stores it; `none` is a `DataError`. -/
def jsonbText : PyStr → Option PyStr
  | [] => some []
  | [c] => if isScalar c ∧ c ≠ 0 then some [c] else none
  | c :: d :: text =>
    if (0xD800 ≤ c ∧ c ≤ 0xDBFF) ∧ 0xDC00 ≤ d ∧ d ≤ 0xDFFF then
      (jsonbText text).map ((0x10000 + (c - 0xD800) * 1024 + (d - 0xDC00)) :: ·)
    else if isScalar c ∧ c ≠ 0 then (jsonbText (d :: text)).map (c :: ·)
    else none

/-- No surrogate and no U+0000 is in the text. -/
def Plain (text : PyStr) : Prop := ∀ c ∈ text, isScalar c ∧ c ≠ 0

instance (text : PyStr) : Decidable (Plain text) := by
  unfold Plain
  infer_instance

theorem isScalar_iff {c : ℕ} : isScalar c ↔ c < 0xD800 ∨ (0xE000 ≤ c ∧ c ≤ 0x10FFFF) := by
  simp [isScalar]

theorem plain_cons {c : ℕ} {text : PyStr} :
    Plain (c :: text) ↔ (isScalar c ∧ c ≠ 0) ∧ Plain text := List.forall_mem_cons

theorem Plain.append {a b : PyStr} (ha : Plain a) (hb : Plain b) : Plain (a ++ b) :=
  List.forall_mem_append.mpr ⟨ha, hb⟩

theorem Plain.mono {a b : PyStr} (hb : Plain b) (h : a ⊆ b) : Plain a := fun c hc => hb c (h hc)

theorem plain_decimal (n : ℕ) : Plain (decimal n) := by
  intro c hc
  have hdigit := Json.isDigit_of_mem_decimal hc
  simp only [Json.isDigit, Bool.and_eq_true, decide_eq_true_eq] at hdigit
  rw [isScalar_iff]
  omega

/-- The characters of a literal are no surrogates. -/
theorem plain_py {s : String} (h : 0 ∉ py s) : Plain (py s) := by
  intro c hc
  refine ⟨?_, fun heq => h (heq ▸ hc)⟩
  obtain ⟨char, -, rfl⟩ := List.mem_map.mp hc
  rw [isScalar_iff]
  have hvalid : char.toNat < 0xD800 ∨ (0xDFFF < char.toNat ∧ char.toNat < 0x110000) := char.valid
  omega

/-- What is stored is plain. -/
theorem plain_jsonbText {text stored : PyStr} (h : jsonbText text = some stored) :
    Plain stored := by
  fun_induction jsonbText text generalizing stored with
  | case1 =>
    obtain rfl := Option.some.inj h
    exact nofun
  | case2 c hc =>
    obtain rfl := Option.some.inj h
    exact plain_cons.mpr ⟨hc, nofun⟩
  | case3 => cases h
  | case4 c d text hpair ih =>
    obtain ⟨rest, hrest, rfl⟩ := Option.map_eq_some_iff.mp h
    refine plain_cons.mpr ⟨?_, ih hrest⟩
    rw [isScalar_iff]
    omega
  | case5 c d text _ hc ih =>
    obtain ⟨rest, hrest, rfl⟩ := Option.map_eq_some_iff.mp h
    exact plain_cons.mpr ⟨hc, ih hrest⟩
  | case6 => cases h

theorem jsonbText_of_plain {text : PyStr} (h : Plain text) : jsonbText text = some text := by
  fun_induction jsonbText text with
  | case1 => rfl
  | case2 => rfl
  | case3 c hc => exact absurd (plain_cons.mp h).1 hc
  | case4 c d text hpair =>
    -- a surrogate is no scalar value
    have := isScalar_iff.mp (plain_cons.mp h).1.1
    omega
  | case5 c d text _ hc ih => rw [ih (plain_cons.mp h).2, Option.map_some]
  | case6 c d text _ hc => exact absurd (plain_cons.mp h).1 hc

/-- **Plain texts** are the ones stored as they are. -/
theorem jsonbText_eq_self_iff {text : PyStr} : jsonbText text = some text ↔ Plain text :=
  ⟨plain_jsonbText, jsonbText_of_plain⟩

/-- A text that `jsonb` took, as it comes back. -/
def jsonbKept (text : PyStr) : PyStr := (jsonbText text).getD text

theorem jsonbKept_of_plain {text : PyStr} (h : Plain text) : jsonbKept text = text := by
  rw [jsonbKept, jsonbText_of_plain h, Option.getD_some]

theorem plain_jsonbKept {text : PyStr} (h : (jsonbText text).isSome) : Plain (jsonbKept text) := by
  obtain ⟨stored, hstored⟩ := Option.isSome_iff_exists.mp h
  rw [jsonbKept, hstored]
  exact plain_jsonbText hstored

theorem length_jsonbKept_le (text : PyStr) : (jsonbKept text).length ≤ text.length := by
  have hlength : ∀ stored, jsonbText text = some stored → stored.length ≤ text.length := by
    fun_induction jsonbText text with
    | case1 =>
      rintro _ ⟨⟩
      exact le_rfl
    | case2 =>
      rintro _ ⟨⟩
      exact le_rfl
    | case3 =>
      intro stored h
      cases h
    | case4 c d text _ ih =>
      intro stored h
      obtain ⟨rest, hrest, rfl⟩ := Option.map_eq_some_iff.mp h
      have := ih rest hrest
      simp only [List.length_cons]
      omega
    | case5 c d text _ _ ih =>
      intro stored h
      obtain ⟨rest, hrest, rfl⟩ := Option.map_eq_some_iff.mp h
      exact Nat.succ_le_succ (ih rest hrest)
    | case6 =>
      intro stored h
      cases h
  cases h : jsonbText text with
  | none => rw [jsonbKept, h, Option.getD_none]
  | some stored =>
    rw [jsonbKept, h, Option.getD_some]
    exact hlength stored h

/-- What comes back without a character beyond U+FFFF is what was stored. -/
theorem jsonbText_eq_of_basic {text stored : PyStr} (h : jsonbText text = some stored)
    (hbasic : ∀ c ∈ stored, c < 0x10000) : text = stored := by
  fun_induction jsonbText text generalizing stored with
  | case1 => exact Option.some.inj h
  | case2 => exact Option.some.inj h
  | case3 => cases h
  | case4 c d text hpair =>
    obtain ⟨rest, hrest, rfl⟩ := Option.map_eq_some_iff.mp h
    have := hbasic _ List.mem_cons_self
    omega
  | case5 c d text _ _ ih =>
    obtain ⟨rest, hrest, rfl⟩ := Option.map_eq_some_iff.mp h
    rw [ih hrest fun c hc => hbasic c (List.mem_cons_of_mem _ hc)]
  | case6 => cases h

/-! ## Records -/

/-- An error record as it is stored. -/
def ManifestError.stored (error : ManifestError) : Option ManifestError :=
  let path := match error.path with
    | none => some none
    | some path => (jsonbText path).map some
  path.bind fun path => (jsonbText error.message).map fun message => { error with path, message }

/-- The value of `validation_errors` as it is stored. -/
def storedErrors : List ManifestError → Option (List ManifestError)
  | [] => some []
  | error :: errors => error.stored.bind fun first => (storedErrors errors).map (first :: ·)

/-- The texts of a record are plain. -/
structure ManifestError.Plain (error : ManifestError) : Prop where
  path : ∀ path ∈ error.path, NetBoxScripts.Plain path
  message : NetBoxScripts.Plain error.message

theorem ManifestError.stored_eq_self_iff {error : ManifestError} :
    error.stored = some error ↔ error.Plain := by
  obtain ⟨path, code, message⟩ := error
  constructor
  · intro h
    obtain ⟨path', hpath, h⟩ := Option.bind_eq_some_iff.mp h
    obtain ⟨message', hmessage, heq⟩ := Option.map_eq_some_iff.mp h
    simp only [ManifestError.mk.injEq, true_and] at heq
    obtain ⟨rfl, rfl⟩ := heq
    refine ⟨fun text htext => ?_, plain_jsonbText hmessage⟩
    obtain rfl := Option.mem_def.mp htext
    obtain ⟨stored, hstored, heq⟩ := Option.map_eq_some_iff.mp hpath
    obtain rfl := Option.some.inj heq
    exact plain_jsonbText hstored
  · rintro ⟨hpath, hmessage⟩
    cases path with
    | none => simp [ManifestError.stored, jsonbText_of_plain hmessage]
    | some path =>
      simp [ManifestError.stored, jsonbText_of_plain hmessage, jsonbText_of_plain (hpath path rfl)]

/-- A record is stored where its texts are. -/
theorem ManifestError.isSome_stored_iff {error : ManifestError} :
    error.stored.isSome ↔
      (∀ path ∈ error.path, (jsonbText path).isSome) ∧ (jsonbText error.message).isSome := by
  obtain ⟨path, code, message⟩ := error
  cases path with
  | none => simp [ManifestError.stored]
  | some path => simp [ManifestError.stored, Option.isSome_bind, Option.any_map, Option.any_eq_true,
      Option.isSome_iff_exists]

/-- Records are stored where each is. -/
theorem isSome_storedErrors_iff {errors : List ManifestError} :
    (storedErrors errors).isSome ↔ ∀ error ∈ errors, error.stored.isSome := by
  induction errors with
  | nil => simp [storedErrors]
  | cons error errors ih =>
    rw [List.forall_mem_cons, ← ih, storedErrors]
    cases error.stored with
    | none => simp
    | some first => simp

/-- Records are stored as they are exactly where all are plain. -/
theorem storedErrors_eq_self_iff {errors : List ManifestError} :
    storedErrors errors = some errors ↔ ∀ error ∈ errors, error.Plain := by
  induction errors with
  | nil => simp [storedErrors]
  | cons error errors ih =>
    rw [List.forall_mem_cons, ← ih, ← ManifestError.stored_eq_self_iff, storedErrors]
    constructor
    · intro h
      obtain ⟨first, hfirst, h⟩ := Option.bind_eq_some_iff.mp h
      obtain ⟨rest, hrest, heq⟩ := Option.map_eq_some_iff.mp h
      obtain ⟨rfl, rfl⟩ := List.cons.inj heq
      exact ⟨hfirst, hrest⟩
    · rintro ⟨hfirst, hrest⟩
      rw [hfirst, hrest]
      rfl

/-! ## Records of a build -/

section Build

variable [Unicode] {path canonical : PyStr} {error : UnsafePathError}

/-- A canonical path is plain: control characters are refused, and its length was measured. -/
theorem plain_canonical (h : normalizeSourcePath path = .ok canonical) : Plain canonical := by
  have hscalar := isScalar_of_normalizeSourcePath h
  obtain ⟨hwhole, -, rfl⟩ := (normalizeSourcePath_eq_ok_iff ..).mp h
  intro c hc
  refine ⟨hscalar c hc, ?_⟩
  rintro rfl
  rcases mem_join_realSegments hc with hslash | hmem
  · cases hslash
  · exact List.any_eq_false.mp hwhole.no_control 0 hmem (by decide)

omit [Unicode] in
theorem checkComponents_refused {segments : List PyStr}
    (hsegments : ∀ segment ∈ segments, ∀ c ∈ segment, c ≠ 0)
    (h : checkComponents path segments = .error (.unsafePath error)) :
    error.path = path ∧ Plain error.message := by
  induction segments with
  | nil => cases h
  | cons segment segments ih =>
    rw [List.forall_mem_cons] at hsegments
    rw [checkComponents] at h
    cases hlength : utf8Length segment with
    | none =>
      rw [hlength] at h
      cases h
    | some length =>
      rw [hlength] at h
      dsimp only at h
      split_ifs at h
      · cases h
        have hsegment : Plain segment := fun c hc =>
          ⟨isScalar_of_utf8Length hlength c hc, hsegments.1 c hc⟩
        refine ⟨rfl, ?_⟩
        repeat' apply Plain.append
        any_goals exact plain_decimal _
        any_goals exact plain_py (by decide)
        exact hsegment.mono (List.take_subset 40 segment)
      · exact ih hsegments.2 h

omit [Unicode] in
theorem refuse_plain {α : Type} {code : RejectionCode} {message : PyStr} (hmessage : Plain message)
    (h : (refuse path code message : Except PathFailure α) = .error (.unsafePath error)) :
    error.path = path ∧ Plain error.message := by
  obtain rfl := PathFailure.unsafePath.inj (Except.error.inj h)
  exact ⟨rfl, hmessage⟩

/-- The record of a refused path names the path as it was supplied. -/
theorem normalizeSourcePath_refused (h : normalizeSourcePath path = .error (.unsafePath error)) :
    error.path = path ∧ Plain error.message := by
  unfold normalizeSourcePath at h
  dsimp only at h
  split_ifs at h with h₁ h₂ hcontrol
  any_goals exact refuse_plain (plain_py (by decide)) h
  have hsegments : ∀ segment ∈ realSegments (nfc path), ∀ c ∈ segment, c ≠ 0 := by
    rintro segment hsegment c hc rfl
    have hmem := mem_of_mem_split (mem_realSegments.mp hsegment).1 hc
    exact hcontrol (List.any_eq_true.mpr ⟨0, hmem, by decide⟩)
  unfold withinBounds at h
  cases hcheck : checkComponents path (realSegments (nfc path)) with
  | error failure =>
    rw [hcheck] at h
    cases h
    exact checkComponents_refused hsegments hcheck
  | ok u =>
    rw [hcheck] at h
    cases htotal : utf8Length (join (realSegments (nfc path))) with
    | none =>
      rw [htotal] at h
      cases h
    | some total =>
      rw [htotal] at h
      dsimp only at h
      split_ifs at h
      all_goals
        refine refuse_plain ?_ h
        repeat' apply Plain.append
        any_goals exact plain_decimal _
        all_goals exact plain_py (by decide)

variable [Hashing] {files : SourceFiles} {limits : StorageLimits} {entries : List ManifestEntry}
  {errors : List ManifestError}

/-- The path a record names is such a one, and its message is plain. -/
structure ManifestError.Names (P : PyStr → Prop) (error : ManifestError) : Prop where
  path : ∀ path ∈ error.path, P path
  message : NetBoxScripts.Plain error.message

/-- The entries so far are plain, the records too, but for the supplied paths they name. -/
structure PlainWalk (P : PyStr → Prop) (walk : Walk) : Prop where
  errors : ∀ error ∈ walk.errors, error.Names P
  entries : ∀ entry ∈ walk.entries, Plain entry.path

variable {P : PyStr → Prop}

theorem PlainWalk.step (hP : ∀ path, Plain path → P path) {maxFileSize : ℕ} {walk walk' : Walk}
    {file : PyStr × Bytes} (h : PlainWalk P walk) (hfile : P file.1)
    (hstep : walkStep maxFileSize walk file = .ok walk') : PlainWalk P walk' := by
  have hone : ∀ error : ManifestError, error.Names P →
      ∀ error' ∈ walk.errors ++ [error], error'.Names P := fun error herror =>
    List.forall_mem_append.mpr ⟨h.errors, List.forall_mem_singleton.mpr herror⟩
  unfold walkStep at hstep
  split at hstep
  · next error herror =>
    cases hstep
    obtain ⟨hpath, hmessage⟩ := normalizeSourcePath_refused herror
    refine ⟨hone _ ⟨fun path heq => ?_, hmessage⟩, h.entries⟩
    obtain rfl := Option.some.inj heq
    rw [hpath]
    exact hfile
  · cases hstep
  · next canonical hcanonical =>
    have hplain := plain_canonical hcanonical
    split_ifs at hstep
    · cases hstep
      refine ⟨hone _ ⟨fun path heq => ?_, ?_⟩, h.entries⟩
      · obtain rfl := Option.some.inj heq
        exact hfile
      · refine (Plain.append ?_ hplain).append ?_
        all_goals exact plain_py (by decide)
    · split at hstep
      · next error herror =>
        cases hstep
        rw [buildEntry] at herror
        split_ifs at herror
        cases herror
        refine ⟨hone _ ⟨fun path heq => ?_, ?_⟩, h.entries⟩
        · obtain rfl := Option.some.inj heq
          exact hP _ hplain
        · dsimp only
          repeat' apply Plain.append
          any_goals exact plain_decimal _
          any_goals exact hplain
          all_goals exact plain_py (by decide)
      · next entry hentry =>
        cases hstep
        obtain ⟨-, rfl⟩ := buildEntry_eq_ok hentry
        exact ⟨h.errors, List.forall_mem_append.mpr
          ⟨h.entries, List.forall_mem_singleton.mpr hplain⟩⟩

theorem PlainWalk.run (hP : ∀ path, Plain path → P path) {maxFileSize : ℕ} {walk walk' : Walk}
    {items : List (PyStr × Bytes)} (h : PlainWalk P walk) (hitems : ∀ file ∈ items, P file.1)
    (hrun : items.foldlM (walkStep maxFileSize) walk = .ok walk') : PlainWalk P walk' := by
  induction items generalizing walk with
  | nil =>
    cases hrun
    exact h
  | cons file items ih =>
    rw [List.forall_mem_cons] at hitems
    rw [List.foldlM_cons] at hrun
    obtain ⟨walk₁, hstep, hrun⟩ := Except.bind_eq_ok_iff.mp hrun
    exact ih (h.step hP hitems.1 hstep) hitems.2 hrun

omit [Unicode] [Hashing] in
theorem IsNode.plain {node : PyStr} (h : IsNode node path) (hpath : Plain path) : Plain node := by
  by_cases heq : node = path
  · rwa [heq]
  · obtain ⟨rest, rfl⟩ := IsAbove.exists_append ⟨h, heq⟩
    exact hpath.mono (List.subset_append_left _ _)

omit [Hashing] in
/-- The names reported for a collision are nodes of the paths. -/
theorem UnicodeLaws.plain_collision (laws : UnicodeLaws) {paths : List PyStr}
    (hpaths : ∀ path ∈ paths, Plain path) {collision : PyStr × (PyStr × PyStr)}
    (h : collision ∈ caseInsensitiveCollisions paths) :
    Plain collision.2.1 ∧ Plain collision.2.2 := by
  obtain ⟨path, hpath, hcollision⟩ := List.mem_filterMap.mp h
  obtain ⟨pair, hpair, rfl⟩ := Option.map_eq_some_iff.mp hcollision
  obtain ⟨⟨form, node⟩, hnode, rfl⟩ := Option.map_eq_some_iff.mp hpair
  have hpath := (List.mem_insertionSort _).mp hpath
  obtain ⟨hnode, -⟩ := laws.mem_caseInsensitiveNodes.mp (List.mem_of_find?_eq_some hnode)
  refine ⟨hnode.plain (hpaths path hpath), ?_⟩
  dsimp only
  cases hothers : ((namesByForm (paths.insertionSort (· ≤ ·)) form).filter
      (· ≠ node)).insertionSort (· ≤ ·) with
  | nil => exact nofun
  | cons other others =>
    have hother : other ∈ namesByForm (paths.insertionSort (· ≤ ·)) form :=
      List.mem_of_mem_filter ((List.mem_insertionSort _).mp (hothers ▸ List.mem_cons_self))
    obtain ⟨⟨path', hpath', hnode'⟩, -⟩ := laws.mem_namesByForm.mp hother
    exact hnode'.plain (hpaths path' ((List.mem_insertionSort _).mp hpath'))

omit [Hashing] in
theorem UnicodeLaws.plain_conflicts (laws : UnicodeLaws)
    (hentries : ∀ entry ∈ entries, Plain entry.path) :
    ∀ error ∈ (rejectPathConflicts entries).2, error.Names Plain := by
  intro error herror
  rcases List.mem_append.mp herror with herror | herror
  · obtain ⟨entry, hentry, heq⟩ := List.mem_filterMap.mp herror
    obtain ⟨blocking, hblocking, rfl⟩ := Option.map_eq_some_iff.mp heq
    rw [blockingAncestor] at hblocking
    have hnamed := List.find?_some hblocking
    rw [decide_eq_true_eq] at hnamed
    obtain ⟨file, hfile, rfl⟩ := List.mem_map.mp hnamed
    refine ⟨fun path heq => ?_, ?_⟩
    · obtain rfl := Option.some.inj heq
      exact hentries entry hentry
    · refine (Plain.append ?_ (hentries file hfile)).append ?_
      all_goals exact plain_py (by decide)
  · obtain ⟨entry, hentry, heq⟩ := List.mem_filterMap.mp herror
    obtain ⟨collision, hcollision, rfl⟩ := Option.map_eq_some_iff.mp heq
    have hkept : ∀ path ∈ (entries.filter fun entry =>
        (pathConflict (entries.map ManifestEntry.path) entry).isNone).map ManifestEntry.path,
        Plain path := by
      intro path hpath
      obtain ⟨entry, hentry, rfl⟩ := List.mem_map.mp hpath
      exact hentries entry (List.mem_of_mem_filter hentry)
    obtain ⟨hnode, hother⟩ := laws.plain_collision hkept (List.mem_of_find?_eq_some hcollision)
    refine ⟨fun path heq => ?_, ?_⟩
    · obtain rfl := Option.some.inj heq
      exact hentries entry (List.mem_of_mem_filter hentry)
    · dsimp only
      repeat' apply Plain.append
      any_goals assumption
      all_goals exact plain_py (by decide)

theorem plainWalk_sorted (hP : ∀ path, Plain path → P path)
    (hfiles : ∀ file ∈ files.items, P file.1) {maxFileSize : ℕ} {walk : Walk}
    (h : files.sorted.foldlM (walkStep maxFileSize) ⟨[], [], []⟩ = .ok walk) :
    PlainWalk P walk := by
  have hstart : PlainWalk P ⟨[], [], []⟩ := ⟨by simp, by simp⟩
  exact hstart.run hP (fun file hfile => hfiles file ((List.mem_insertionSort _).mp hfile)) h

/-- The entries of a build are plain. -/
theorem buildManifest_plain_entries (h : buildManifest files limits = .ok (entries, errors)) :
    ∀ entry ∈ entries, Plain entry.path := by
  rw [buildManifest] at h
  cases hrun : files.sorted.foldlM (walkStep limits.maxFileSize) ⟨[], [], []⟩ with
  | error failure =>
    rw [hrun] at h
    cases h
  | ok walk =>
    rw [hrun] at h
    cases h
    intro entry hentry
    -- canonical paths are, whatever they were made from
    apply (plainWalk_sorted (P := fun _ => True) (fun _ _ => trivial) (fun _ _ => trivial) hrun).entries
    exact (rejectPathConflicts_sublist walk.entries).subset ((List.mem_insertionSort _).mp hentry)

/-- The records of a build are plain, but for the supplied paths they name. -/
theorem buildManifest_names (laws : UnicodeLaws) (hP : ∀ path, Plain path → P path)
    (hfiles : ∀ file ∈ files.items, P file.1)
    (h : buildManifest files limits = .ok (entries, errors)) : ∀ error ∈ errors, error.Names P := by
  rw [buildManifest] at h
  cases hrun : files.sorted.foldlM (walkStep limits.maxFileSize) ⟨[], [], []⟩ with
  | error failure =>
    rw [hrun] at h
    cases h
  | ok walk =>
    rw [hrun] at h
    cases h
    have hwalk := plainWalk_sorted hP hfiles hrun
    have hconflicts : ∀ error ∈ (rejectPathConflicts walk.entries).2, error.Names P := by
      intro error herror
      obtain ⟨hpath, hmessage⟩ := laws.plain_conflicts hwalk.entries error herror
      exact ⟨fun path hmem => hP path (hpath path hmem), hmessage⟩
    refine List.forall_mem_append.mpr ⟨List.forall_mem_append.mpr ⟨List.forall_mem_append.mpr
      ⟨hwalk.errors, hconflicts⟩, ?_⟩, ?_⟩
    · unfold countErrors
      split_ifs
      · refine List.forall_mem_singleton.mpr ⟨fun _ hpath => (by cases hpath), ?_⟩
        dsimp only
        repeat' apply Plain.append
        any_goals exact plain_decimal _
        all_goals exact plain_py (by decide)
      · intro error herror
        cases herror
    · unfold totalErrors
      dsimp only
      split_ifs
      · refine List.forall_mem_singleton.mpr ⟨fun _ hpath => (by cases hpath), ?_⟩
        dsimp only
        repeat' apply Plain.append
        any_goals exact plain_decimal _
        all_goals exact plain_py (by decide)
      · intro error herror
        cases herror

/-- **The records of a build** are plain where the supplied paths are. -/
theorem buildManifest_plain (laws : UnicodeLaws) (hplain : ∀ file ∈ files.items, Plain file.1)
    (h : buildManifest files limits = .ok (entries, errors)) : ∀ error ∈ errors, error.Plain := by
  intro error herror
  obtain ⟨hpath, hmessage⟩ := buildManifest_names laws (fun _ h => h) hplain h error herror
  exact ⟨hpath, hmessage⟩

/-! ## Paths that are not plain -/

/-- What is relied on of NFC: a surrogate and U+0000 take no part in a composition. -/
def NfcKeeps : Prop := ∀ s, ∀ c ∈ s, ¬ (isScalar c ∧ c ≠ 0) → c ∈ nfc s

omit [Unicode] [Hashing] in
theorem nfcKeeps_ascii : @NfcKeeps asciiUnicode := fun _ _ hc _ => hc

omit [Unicode] [Hashing] in
theorem mem_join_of_mem {segments : List PyStr} {segment : PyStr} (h : segment ∈ segments) {c : ℕ}
    (hc : c ∈ segment) : c ∈ join segments := by
  obtain ⟨before, after, rfl⟩ := List.append_of_mem h
  rcases eq_or_ne before [] with rfl | hbefore
  · rcases eq_or_ne after [] with rfl | hafter
    · simpa using hc
    · simp [join_cons hafter, hc]
  · rw [join_append hbefore (List.cons_ne_nil _ _)]
    refine List.mem_append_right _ (List.mem_cons_of_mem _ ?_)
    rcases eq_or_ne after [] with rfl | hafter
    · simpa using hc
    · simp [join_cons hafter, hc]

omit [Hashing] in
/-- A path that is not plain has no canonical form. -/
theorem NfcKeeps.plain_of_canonical (hkeeps : NfcKeeps)
    (h : normalizeSourcePath path = .ok canonical) : Plain path := by
  intro c hc
  by_contra hnot
  have hcanonical := plain_canonical h
  obtain ⟨-, -, rfl⟩ := (normalizeSourcePath_eq_ok_iff ..).mp h
  have hmem : c ∈ join (split (nfc path)) := by
    rw [join_split]
    exact hkeeps path c hc hnot
  rcases mem_join hmem with rfl | ⟨segment, hsegment, hcs⟩
  · exact hnot (by decide)
  · have hreal : segment ∈ realSegments (nfc path) := by
      refine mem_realSegments.mpr ⟨hsegment, List.ne_nil_of_mem hcs, ?_⟩
      rintro rfl
      obtain rfl : c = 46 := by simpa [py] using hcs
      exact hnot (by decide)
    exact hnot (hcanonical c (mem_join_of_mem hreal hcs))

/-- What a turn of the walk leaves of a path that is refused. -/
theorem walkStep_records {maxFileSize : ℕ} {walk walk' : Walk} {file : PyStr × Bytes}
    (h : walkStep maxFileSize walk file = .ok walk') :
    walk.errors ⊆ walk'.errors ∧
      ((∃ canonical, normalizeSourcePath file.1 = .ok canonical) ∨
        ∃ error ∈ walk'.errors, error.path = some file.1) := by
  unfold walkStep at h
  split at h
  · next error herror =>
    cases h
    refine ⟨List.subset_append_left _ _, .inr ⟨_, List.mem_concat_self, ?_⟩⟩
    exact congrArg some (normalizeSourcePath_refused herror).1
  · cases h
  · next canonical hcanonical =>
    refine ⟨?_, .inl ⟨canonical, hcanonical⟩⟩
    split_ifs at h
    · cases h
      exact List.subset_append_left _ _
    · split at h
      · cases h
        exact List.subset_append_left _ _
      · cases h
        exact List.Subset.refl _

theorem walk_records {maxFileSize : ℕ} {walk walk' : Walk} {items : List (PyStr × Bytes)}
    (h : items.foldlM (walkStep maxFileSize) walk = .ok walk') :
    walk.errors ⊆ walk'.errors ∧
      ∀ file ∈ items, (∃ canonical, normalizeSourcePath file.1 = .ok canonical) ∨
        ∃ error ∈ walk'.errors, error.path = some file.1 := by
  induction items generalizing walk with
  | nil =>
    cases h
    exact ⟨List.Subset.refl _, nofun⟩
  | cons file items ih =>
    rw [List.foldlM_cons] at h
    obtain ⟨walk₁, hstep, hrun⟩ := Except.bind_eq_ok_iff.mp h
    obtain ⟨hfirst, hrecorded⟩ := walkStep_records hstep
    obtain ⟨hrest, hitems⟩ := ih hrun
    refine ⟨fun _ hmem => hrest (hfirst hmem), List.forall_mem_cons.mpr ⟨?_, hitems⟩⟩
    exact hrecorded.imp_right fun ⟨error, herror, hpath⟩ => ⟨error, hrest herror, hpath⟩

/-- A build has a canonical form of each path, or a record that names it. -/
theorem buildManifest_records (h : buildManifest files limits = .ok (entries, errors)) :
    ∀ file ∈ files.items, (∃ canonical, normalizeSourcePath file.1 = .ok canonical) ∨
      ∃ error ∈ errors, error.path = some file.1 := by
  intro file hfile
  rw [buildManifest] at h
  cases hrun : files.sorted.foldlM (walkStep limits.maxFileSize) ⟨[], [], []⟩ with
  | error failure =>
    rw [hrun] at h
    cases h
  | ok walk =>
    rw [hrun] at h
    cases h
    refine ((walk_records hrun).2 file ((List.mem_insertionSort _).mpr hfile)).imp_right ?_
    rintro ⟨error, herror, hpath⟩
    refine ⟨error, ?_, hpath⟩
    simp only [List.mem_append]
    exact .inl (.inl (.inl herror))

/-- **Records that are plain** name every path that is not. -/
theorem NfcKeeps.plain_of_buildManifest (hkeeps : NfcKeeps)
    (h : buildManifest files limits = .ok (entries, errors))
    (herrors : ∀ error ∈ errors, error.Plain) : ∀ file ∈ files.items, Plain file.1 := by
  intro file hfile
  rcases buildManifest_records h file hfile with ⟨canonical, hcanonical⟩ | ⟨error, herror, hpath⟩
  · exact hkeeps.plain_of_canonical hcanonical
  · exact (herrors error herror).path file.1 hpath

/-- **Paths whose records can be written**: `jsonb` takes each as a text, and none holds a surrogate
where it is encoded. -/
structure Recordable (files : SourceFiles) : Prop where
  kept : ∀ file ∈ files.items, (jsonbText file.1).isSome
  encoded : ∀ file ∈ files.items, normalizeSourcePath file.1 ≠ .error .unicodeEncodeError

/-- The walk ends where every path can be encoded. -/
theorem walk_ok_iff (maxFileSize : ℕ) {walk : Walk} {items : List (PyStr × Bytes)} :
    (∃ walk', items.foldlM (walkStep maxFileSize) walk = .ok walk') ↔
      ∀ file ∈ items, normalizeSourcePath file.1 ≠ .error .unicodeEncodeError := by
  induction items generalizing walk with
  | nil => exact ⟨fun _ => nofun, fun _ => ⟨walk, rfl⟩⟩
  | cons file items ih =>
    rw [List.forall_mem_cons, List.foldlM_cons]
    cases hstep : walkStep maxFileSize walk file with
    | error failure =>
      refine ⟨fun ⟨_, h⟩ => (by cases h), fun ⟨hencoded, _⟩ => ?_⟩
      unfold walkStep at hstep
      split at hstep
      · cases hstep
      · next herror => exact absurd herror hencoded
      · split_ifs at hstep
        split at hstep <;> cases hstep
    | ok walk' =>
      refine (@ih walk').trans ⟨fun h => ⟨fun herror => ?_, h⟩, And.right⟩
      rw [walkStep, herror] at hstep
      cases hstep

/-- **A source can be recorded** exactly where it is built and the database takes its records. -/
theorem recordable_iff (laws : UnicodeLaws) (hkeeps : NfcKeeps) : Recordable files ↔
    ∃ entries errors, buildManifest files limits = .ok (entries, errors) ∧
      (storedErrors errors).isSome := by
  have hsorted : ∀ {Q : PyStr × Bytes → Prop},
      (∀ file ∈ files.sorted, Q file) ↔ ∀ file ∈ files.items, Q file := by
    intro Q
    exact forall_congr' fun file => by rw [SourceFiles.sorted, List.mem_insertionSort]
  have hbuilds : (∃ entries errors, buildManifest files limits = .ok (entries, errors)) ↔
      ∀ file ∈ files.items, normalizeSourcePath file.1 ≠ .error .unicodeEncodeError := by
    rw [← hsorted, ← @walk_ok_iff _ _ limits.maxFileSize ⟨[], [], []⟩, buildManifest]
    cases files.sorted.foldlM (walkStep limits.maxFileSize) ⟨[], [], []⟩ with
    | error failure =>
      constructor
      · rintro ⟨entries, errors, h⟩
        cases h
      · rintro ⟨walk, h⟩
        cases h
    | ok walk => exact ⟨fun _ => ⟨walk, rfl⟩, fun _ => ⟨_, _, rfl⟩⟩
  constructor
  · rintro ⟨hkept, hencoded⟩
    obtain ⟨entries, errors, hbuild⟩ := hbuilds.mpr hencoded
    refine ⟨entries, errors, hbuild, isSome_storedErrors_iff.mpr fun error herror => ?_⟩
    have hplain : ∀ path, Plain path → (jsonbText path).isSome := by
      intro path hpath
      rw [jsonbText_of_plain hpath, Option.isSome_some]
    obtain ⟨hpath, hmessage⟩ := buildManifest_names laws hplain hkept hbuild error herror
    exact ManifestError.isSome_stored_iff.mpr ⟨hpath, hplain _ hmessage⟩
  · rintro ⟨entries, errors, hbuild, hstored⟩
    refine ⟨fun file hfile => ?_, hbuilds.mp ⟨entries, errors, hbuild⟩⟩
    rcases buildManifest_records hbuild file hfile with ⟨canonical, hcanonical⟩ | ⟨error, herror, hpath⟩
    · rw [jsonbText_of_plain (hkeeps.plain_of_canonical hcanonical), Option.isSome_some]
    · exact (ManifestError.isSome_stored_iff.mp
        (isSome_storedErrors_iff.mp hstored error herror)).1 file.1 hpath

end Build

end NetBoxScripts
