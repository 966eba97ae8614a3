import NetBoxScripts.Migration.Mapping

/-!
# The proposals of a plan

What `group` (`plan.py`) makes of a list of built-in modules: each is in one proposal, the
proposals on one data source are apart, and nothing depends on the order of the list.

## Main definitions

* `Collects`: buckets that hold what a list of items puts under each identity
* `IsContainer`: the shallowest folder of a set that contains a folder
* `plannedIdentity`: the identity a module's proposal is made for

## Main results

* `isContainer_container`, `IsContainer.unique`: the nested scan finds that folder
* `mem_group`: the proposals are those of the planned identities
* `group_partitions`: what the set of proposals satisfies
-/

namespace NetBoxScripts

/-! ## Buckets -/

section Buckets

/-- What a list of items puts under an identity. -/
def collected (items : Buckets) (identity : PlanIdentity) : List LegacyModule :=
  (items.filter fun item => item.1 = identity).flatMap Prod.snd

/-- The buckets that a list of items makes: one for each identity, with all that is under it. -/
structure Collects (buckets items : Buckets) : Prop where
  nodup : (buckets.map Prod.fst).Nodup
  mem_iff : ∀ identity members, (identity, members) ∈ buckets ↔
    identity ∈ items.map Prod.fst ∧ members = collected items identity

variable {buckets items : Buckets} {identity : PlanIdentity} {members : List LegacyModule}

theorem keys_extend : (buckets.extend identity members).map Prod.fst =
    if identity ∈ buckets.map Prod.fst then buckets.map Prod.fst
    else buckets.map Prod.fst ++ [identity] := by
  induction buckets with
  | nil => rfl
  | cons bucket buckets ih =>
    rw [Buckets.extend]
    by_cases hsame : bucket.1 = identity
    · rw [if_pos hsame, if_pos (by simp [hsame])]
      simp [hsame]
    · rw [if_neg hsame, List.map_cons, ih, List.map_cons]
      by_cases hmem : identity ∈ buckets.map Prod.fst
      · rw [if_pos hmem, if_pos (List.mem_cons_of_mem _ hmem)]
      · rw [if_neg hmem, if_neg (List.not_mem_cons_of_ne_of_not_mem (Ne.symm hsame) hmem),
          List.cons_append]

/-- What is under an identity after one more item. -/
theorem mem_extend (h : (buckets.map Prod.fst).Nodup) {other : PlanIdentity}
    {found : List LegacyModule} : (other, found) ∈ buckets.extend identity members ↔
      (other ≠ identity ∧ (other, found) ∈ buckets) ∨
      (other = identity ∧ ((∃ old, (identity, old) ∈ buckets ∧ found = old ++ members) ∨
        (identity ∉ buckets.map Prod.fst ∧ found = members))) := by
  induction buckets with
  | nil => simp [Buckets.extend]
  | cons bucket buckets ih =>
    obtain ⟨key, old⟩ := bucket
    rw [List.map_cons, List.nodup_cons] at h
    rw [Buckets.extend]
    by_cases hsame : key = identity
    · subst hsame
      rw [if_pos rfl]
      have hfresh : ∀ kept, (key, kept) ∉ buckets := fun kept hkept =>
        h.1 (List.mem_map.mpr ⟨_, hkept, rfl⟩)
      by_cases hother : other = key
      · subst hother
        simp [hfresh]
      · simp [hother]
    · rw [if_neg hsame, List.mem_cons, ih h.2]
      by_cases hother : other = identity
      · subst hother
        simp [Ne.symm hsame]
      · simp [hother]

/-- One more item is collected. -/
theorem Collects.extend (h : Collects buckets items) :
    Collects (buckets.extend identity members) (items ++ [(identity, members)]) := by
  have hkeys : ∀ key, key ∈ buckets.map Prod.fst ↔ key ∈ items.map Prod.fst := by
    intro key
    constructor
    · intro hkey
      obtain ⟨⟨_, found⟩, hmem, rfl⟩ := List.mem_map.mp hkey
      exact ((h.mem_iff _ _).mp hmem).1
    · intro hkey
      exact List.mem_map.mpr ⟨_, (h.mem_iff key _).mpr ⟨hkey, rfl⟩, rfl⟩
  constructor
  · rw [keys_extend]
    split_ifs with hmem
    · exact h.nodup
    · exact List.nodup_append.mpr ⟨h.nodup, List.nodup_singleton _, by
        rintro a ha b hb rfl
        exact hmem (List.mem_singleton.mp hb ▸ ha)⟩
  · intro other found
    rw [mem_extend h.nodup, collected, List.filter_append, List.flatMap_append, List.map_append,
      List.mem_append]
    by_cases hother : other = identity
    · subst hother
      simp only [ne_eq, not_true_eq_false, false_and, true_and, false_or, List.map_cons,
        List.map_nil, List.mem_singleton, or_true, decide_true, List.filter_cons_of_pos,
        List.filter_nil, List.flatMap_cons, List.flatMap_nil, List.append_nil]
      by_cases hmem : other ∈ buckets.map Prod.fst
      · -- its bucket grows by the new members
        simp only [hmem, not_true_eq_false, false_and, or_false]
        constructor
        · rintro ⟨old, hold, rfl⟩
          rw [((h.mem_iff _ _).mp hold).2]
          rfl
        · intro hfound
          exact ⟨_, (h.mem_iff other _).mpr ⟨(hkeys other).mp hmem, rfl⟩, hfound⟩
      · -- the first item of its identity makes a bucket
        have hnone : items.filter (fun item => item.1 = other) = [] := by
          rw [List.filter_eq_nil_iff]
          intro item hitem heq
          refine hmem ((hkeys other).mpr ?_)
          exact List.mem_map.mpr ⟨item, hitem, of_decide_eq_true heq⟩
        simp only [hmem, not_false_eq_true, true_and, hnone, List.flatMap_nil, List.nil_append]
        constructor
        · rintro (⟨old, hold, -⟩ | hfound)
          · exact absurd (List.mem_map.mpr ⟨_, hold, rfl⟩) hmem
          · exact hfound
        · exact .inr
    · have hskip : (identity = other) = False := eq_false (Ne.symm hother)
      simp only [ne_eq, hother, not_false_eq_true, true_and, false_and, or_false, List.map_cons,
        List.map_nil, List.mem_singleton, hskip, decide_false, Bool.false_eq_true,
        List.filter_cons_of_neg, List.filter_nil, List.flatMap_nil, List.append_nil]
      exact h.mem_iff other found

/-- The loops of `group` and `_collapse` collect their items. -/
theorem collects_foldl (items : Buckets) :
    Collects (items.foldl (fun buckets item => buckets.extend item.1 item.2) []) items := by
  have hloop : ∀ (rest done buckets : Buckets), Collects buckets done →
      Collects (rest.foldl (fun buckets item => buckets.extend item.1 item.2) buckets)
        (done ++ rest) := by
    intro rest
    induction rest with
    | nil => exact fun done buckets h => by simpa using h
    | cons item rest ih =>
      intro done buckets h
      have hitem : Collects (buckets.extend item.1 item.2) (done ++ [item]) := h.extend
      have hstep := ih _ _ hitem
      rwa [List.append_assoc] at hstep
  exact hloop items [] [] ⟨List.nodup_nil, by simp⟩

end Buckets

/-! ## Containers -/

section Containers

variable {folder : PyStr} {folders : List PyStr}

theorem dataSegments_injective : Function.Injective dataSegments := by
  intro a b h
  unfold dataSegments at h
  split_ifs at h with ha hb hb
  · rw [ha, hb]
  · exact absurd h.symm (split_ne_nil b)
  · exact absurd h (split_ne_nil a)
  · exact split_injective h

/-- The shallowest folder of a set that contains a folder, or the folder itself. -/
structure IsContainer (folder : PyStr) (folders : List PyStr) (best : PyStr) : Prop where
  above : dataSegments best <+: dataSegments folder
  mem : best = folder ∨ best ∈ folders
  shallowest : ∀ candidate ∈ folders, dataSegments candidate <+: dataSegments folder →
    folderDepth best ≤ folderDepth candidate

/-- A shallower folder that overlaps with one is above it. -/
theorem above_of_overlap {candidate : PyStr} (hdepth : folderDepth candidate < folderDepth folder)
    (h : dataPathsOverlap candidate folder = true) :
    dataSegments candidate <+: dataSegments folder := by
  rcases (dataPathsOverlap_iff _ _).mp h with hpre | hpre
  · exact hpre
  · have hle := hpre.length_le
    unfold folderDepth at hdepth
    omega

/-- **The nested scan** finds the container. -/
theorem isContainer_container : IsContainer folder folders (container folder folders) := by
  -- on the candidates that are left: `best` is the container among those that are done
  have hloop : ∀ (rest done : List PyStr) (best : PyStr), IsContainer folder done best →
      IsContainer folder (done ++ rest) (rest.foldl (fun best candidate =>
        if folderDepth candidate < folderDepth best ∧ dataPathsOverlap candidate folder
          then candidate else best) best) := by
    intro rest
    induction rest with
    | nil => exact fun done best h => by simpa using h
    | cons candidate rest ih =>
      intro done best h
      have hdeep := h.above.length_le
      have hstep : IsContainer folder (done ++ [candidate])
          (if folderDepth candidate < folderDepth best ∧ dataPathsOverlap candidate folder
            then candidate else best) := by
        by_cases htaken : folderDepth candidate < folderDepth best ∧
            dataPathsOverlap candidate folder = true
        · rw [if_pos htaken]
          refine ⟨above_of_overlap (lt_of_lt_of_le htaken.1 hdeep) htaken.2,
            .inr (by simp), fun other hother hpre => ?_⟩
          rcases List.mem_append.mp hother with hother | hother
          · exact htaken.1.le.trans (h.shallowest other hother hpre)
          · rw [List.mem_singleton.mp hother]
        · rw [if_neg htaken]
          refine ⟨h.above, h.mem.imp_right fun hmem => List.mem_append_left _ hmem,
            fun other hother hpre => ?_⟩
          rcases List.mem_append.mp hother with hother | hother
          · exact h.shallowest other hother hpre
          · rw [List.mem_singleton.mp hother] at hpre ⊢
            by_contra hlt
            exact htaken ⟨by omega, (dataPathsOverlap_iff _ _).mpr (.inl hpre)⟩
      have hrest := ih _ _ hstep
      rwa [List.append_assoc] at hrest
  exact hloop folders [] folder ⟨List.prefix_rfl, .inl rfl, by simp⟩

/-- Two folders above one are the same where they are as deep. -/
theorem eq_of_above_of_depth {a b : PyStr} (ha : dataSegments a <+: dataSegments folder)
    (hb : dataSegments b <+: dataSegments folder) (h : folderDepth a = folderDepth b) : a = b :=
  dataSegments_injective ((List.prefix_of_prefix_length_le ha hb h.le).eq_of_length h)

/-- A folder of the set has one container, whatever the order of the set. -/
theorem IsContainer.unique {folders' : List PyStr} {a b : PyStr} (ha : IsContainer folder folders a)
    (hb : IsContainer folder folders' b) (hmem : folder ∈ folders)
    (hsame : ∀ f, f ∈ folders ↔ f ∈ folders') : a = b := by
  have hmema : a ∈ folders' := (hsame a).mp (ha.mem.elim (fun h => h ▸ hmem) id)
  have hmemb : b ∈ folders :=
    hb.mem.elim (fun h => h ▸ hmem) fun h => (hsame b).mpr h
  exact eq_of_above_of_depth ha.above hb.above
    ((ha.shallowest b hmemb hb.above).antisymm (hb.shallowest a hmema ha.above))

/-- Containers of a set are apart, or the same. -/
theorem IsContainer.apart {folder' a b : PyStr} (ha : IsContainer folder folders a)
    (hb : IsContainer folder' folders b) (hmem : folder ∈ folders) (hmem' : folder' ∈ folders)
    (h : dataPathsOverlap a b = true) : a = b := by
  have hmema : a ∈ folders := ha.mem.elim (fun h => h ▸ hmem) id
  have hmemb : b ∈ folders := hb.mem.elim (fun h => h ▸ hmem') id
  rcases (dataPathsOverlap_iff _ _).mp h with hpre | hpre
  · have hle := hb.shallowest a hmema (hpre.trans hb.above)
    exact dataSegments_injective (hpre.eq_of_length_le hle)
  · have hle := ha.shallowest b hmemb (hpre.trans ha.above)
    exact (dataSegments_injective (hpre.eq_of_length_le hle)).symm

end Containers

/-! ## Folders of modules -/

section Folder

/-- A path without a slash is in the root. -/
theorem dirname_of_notMem {path : PyStr} (h : slash ∉ path) : dirname path = [] := by
  have hdrop : path.reverse.dropWhile (· ≠ slash) = [] := by
    rw [List.dropWhile_eq_nil_iff]
    intro c hc
    rw [List.mem_reverse] at hc
    exact decide_eq_true fun heq => h (heq ▸ hc)
  unfold dirname
  rw [hdrop]
  rfl

/-- What is before the last slash, where that does not end with another. -/
theorem dirname_append {folder last : PyStr} (hlast : slash ∉ last) (hfolder : folder ≠ [])
    (hend : folder.getLast? ≠ some slash) : dirname (folder ++ slash :: last) = folder := by
  have hhead : ((folder ++ slash :: last).reverse.dropWhile (· ≠ slash)).reverse =
      folder ++ [slash] := by
    rw [List.reverse_append, List.reverse_cons, List.append_assoc,
      @List.dropWhile_append_of_pos _ _ last.reverse]
    · simp
    · intro c hc
      rw [List.mem_reverse] at hc
      exact decide_eq_true fun heq => hlast (heq ▸ hc)
  unfold dirname
  dsimp only
  rw [hhead, if_neg]
  · rw [List.reverse_append, List.reverse_singleton, List.singleton_append,
      List.dropWhile_cons_of_pos (by simp)]
    cases hreverse : folder.reverse with
    | nil => exact absurd (List.reverse_eq_nil_iff.mp hreverse) hfolder
    | cons c rest =>
      have hc : c ≠ slash := by
        rintro rfl
        rw [← List.head?_reverse, hreverse] at hend
        exact hend rfl
      rw [List.dropWhile_cons_of_neg (by simpa using hc), ← hreverse, List.reverse_reverse]
  · intro hall
    rw [List.all_append, Bool.and_eq_true] at hall
    obtain ⟨c, hc⟩ :=
      Option.ne_none_iff_exists'.mp fun h => hfolder (List.getLast?_eq_none_iff.mp h)
    have hslash := List.all_eq_true.mp hall.1 c (List.mem_of_getLast? hc)
    exact hend (by rw [hc, of_decide_eq_true hslash])

/-- **The folder of a canonical path** is its segments but the last. -/
theorem split_eq_dirname {value path : PyStr} (h : normalizeDataPath value = .ok path) :
    ∃ last, split path = dataSegments (dirname path) ++ [last] := by
  rcases List.eq_nil_or_concat (split path) with hnil | ⟨init, last, hsplit⟩
  · exact absurd hnil (split_ne_nil path)
  rw [List.concat_eq_append] at hsplit
  refine ⟨last, ?_⟩
  have hslash : ∀ segment ∈ init ++ [last], slash ∉ segment := fun segment hsegment =>
    slash_notMem_of_mem_split (hsplit ▸ hsegment)
  have hlast : slash ∉ last := hslash last (by simp)
  rcases eq_or_ne init [] with rfl | hinit
  · have hpath : path = last := by
      rw [← join_split path, hsplit, List.nil_append, join_singleton]
    rw [hsplit, dirname_of_notMem (hpath ▸ hlast)]
    rfl
  · have hpath : path = join init ++ slash :: last := by
      rw [← join_split path, hsplit, join_append hinit (by simp), join_singleton]
    have hne : path ≠ [] := by
      rw [hpath]
      simp
    have hsegments := dataSegments_of_normalizeDataPath h
    rw [dataSegments, if_neg hne, hsplit] at hsegments
    have hnonempty : [] ∉ init := fun hmem =>
      (hsegments [] (List.mem_append_left _ hmem)).1 rfl
    have hend : (join init).getLast? ≠ some slash := by
      rw [getLast?_join hnonempty]
      intro heq
      obtain ⟨segment, hsegment, hc⟩ := Option.bind_eq_some_iff.mp heq
      exact hslash segment (List.mem_append_left _ (List.mem_of_getLast? hsegment))
        (List.mem_of_getLast? hc)
    have hsplit_init : split (join init) = init :=
      split_join (fun segment hsegment => hslash segment (List.mem_append_left _ hsegment)) hinit
    have hjoin : join init ≠ [] := by
      intro hnil
      rw [hnil] at hsplit_init
      exact hnonempty (hsplit_init ▸ List.mem_cons_self)
    rw [hsplit, hpath, dirname_append hlast hjoin hend, dataSegments, if_neg hjoin, hsplit_init]

/-- A canonical path is inside each folder above its own. -/
theorem claimed_of_above {value path folder : PyStr} (h : normalizeDataPath value = .ok path)
    (habove : dataSegments folder <+: dataSegments (dirname path)) :
    ∃ relative, dataSourceRelativePath path folder = some relative := by
  obtain ⟨last, hsplit⟩ := split_eq_dirname h
  obtain ⟨below, hbelow⟩ := habove
  refine ⟨_, dataSourceRelativePath_eq_some.mpr ⟨below ++ [last], by simp, ?_, rfl⟩⟩
  rw [hsplit, ← hbelow, List.append_assoc]

end Folder

/-! ## The identities of a plan -/

section Planned

variable {modules : List LegacyModule} {identity : PlanIdentity} {members : List LegacyModule}

/-- The identity that the proposal of a module is made for. -/
def plannedIdentity (modules : List LegacyModule) (module : LegacyModule) : PlanIdentity :=
  (bucketsOf modules).merged module.identity

/-- The modules that are planned together. -/
def plannedMembers (modules : List LegacyModule) (identity : PlanIdentity) : List LegacyModule :=
  modules.filter fun module => plannedIdentity modules module = identity

theorem mem_plannedMembers {module : LegacyModule} : module ∈ plannedMembers modules identity ↔
    module ∈ modules ∧ plannedIdentity modules module = identity := by
  simp [plannedMembers]

theorem collects_bucketsOf (modules : List LegacyModule) :
    Collects (bucketsOf modules) (modules.map fun module => (module.identity, [module])) := by
  have h := collects_foldl (modules.map fun module => (module.identity, [module]))
  rwa [List.foldl_map] at h

theorem collected_modules : collected (modules.map fun module => (module.identity, [module]))
    identity = modules.filter fun module => module.identity = identity := by
  induction modules with
  | nil => rfl
  | cons module modules ih =>
    unfold collected at ih ⊢
    rw [List.map_cons, List.filter_cons, List.filter_cons]
    by_cases hsame : module.identity = identity
    · simp only [hsame, decide_true, if_true, List.flatMap_cons, List.singleton_append, ih]
    · simp only [hsame, decide_false, Bool.false_eq_true, if_false, ih]

/-- The first loop puts each module under its own identity. -/
theorem mem_bucketsOf : (identity, members) ∈ bucketsOf modules ↔
    (∃ module ∈ modules, module.identity = identity) ∧
      members = modules.filter fun module => module.identity = identity := by
  rw [(collects_bucketsOf modules).mem_iff, collected_modules]
  simp

theorem mem_folders {source : Id} {folder : PyStr} :
    folder ∈ (bucketsOf modules).folders source ↔
      ∃ module ∈ modules, module.identity = .dataSource source folder := by
  unfold Buckets.folders
  rw [List.mem_filterMap]
  constructor
  · rintro ⟨⟨key, found⟩, hbucket, hfolder⟩
    cases key with
    | upload pk => cases hfolder
    | dataSource source' folder' =>
      dsimp only at hfolder
      split_ifs at hfolder with hsource
      obtain rfl := Option.some.inj hfolder
      subst hsource
      exact (mem_bucketsOf.mp hbucket).1
  · rintro ⟨module, hmodule, hidentity⟩
    exact ⟨_, mem_bucketsOf.mpr ⟨⟨module, hmodule, hidentity⟩, rfl⟩, by simp⟩

/-- The folder that a module of a data source is planned under. -/
theorem plannedIdentity_dataSource {module : LegacyModule} {source : Id} {folder : PyStr}
    (h : module.identity = .dataSource source folder) :
    plannedIdentity modules module =
      .dataSource source (container folder ((bucketsOf modules).folders source)) := by
  rw [plannedIdentity, h, Buckets.merged]

/-- A module that is planned under a data source is of one of its folders. -/
theorem identity_of_planned {module : LegacyModule} {source : Id} {best : PyStr}
    (h : plannedIdentity modules module = .dataSource source best) :
    ∃ folder, module.identity = .dataSource source folder ∧
      IsContainer folder ((bucketsOf modules).folders source) best := by
  cases hidentity : module.identity with
  | upload pk =>
    rw [plannedIdentity, hidentity] at h
    cases h
  | dataSource source' folder =>
    rw [plannedIdentity_dataSource hidentity] at h
    cases h
    exact ⟨folder, rfl, isContainer_container⟩

/-- The order of the modules does not change what one is planned as. -/
theorem plannedIdentity_congr {modules' : List LegacyModule}
    (hsame : ∀ module, module ∈ modules ↔ module ∈ modules') {module : LegacyModule}
    (hmodule : module ∈ modules) :
    plannedIdentity modules module = plannedIdentity modules' module := by
  cases hidentity : module.identity with
  | upload pk => rw [plannedIdentity, plannedIdentity, hidentity, Buckets.merged, Buckets.merged]
  | dataSource source folder =>
    rw [plannedIdentity_dataSource hidentity, plannedIdentity_dataSource hidentity]
    congr 1
    refine isContainer_container.unique isContainer_container
      (mem_folders.mpr ⟨module, hmodule, hidentity⟩) fun other => ?_
    rw [mem_folders, mem_folders]
    exact exists_congr fun found => and_congr_left fun _ => hsame found

/-- The items that `_collapse` collects. -/
def collapseItems (modules : List LegacyModule) : Buckets :=
  (bucketsOf modules).map fun bucket => ((bucketsOf modules).merged bucket.1, bucket.2)

theorem collects_collapse (modules : List LegacyModule) :
    Collects (bucketsOf modules).collapse (collapseItems modules) := by
  have h := collects_foldl (collapseItems modules)
  rw [collapseItems, List.foldl_map] at h
  exact h

theorem mem_collected_collapse {module : LegacyModule} :
    module ∈ collected (collapseItems modules) identity ↔
      module ∈ plannedMembers modules identity := by
  rw [mem_plannedMembers]
  unfold collected
  rw [List.mem_flatMap]
  constructor
  · rintro ⟨item, hitem, hmodule⟩
    obtain ⟨hitem, hkey⟩ := List.mem_filter.mp hitem
    obtain ⟨⟨key, found⟩, hbucket, rfl⟩ := List.mem_map.mp hitem
    obtain ⟨-, rfl⟩ := mem_bucketsOf.mp hbucket
    obtain ⟨hmodule, hidentity⟩ := List.mem_filter.mp hmodule
    refine ⟨hmodule, ?_⟩
    rw [plannedIdentity, of_decide_eq_true hidentity]
    exact of_decide_eq_true hkey
  · rintro ⟨hmodule, hplanned⟩
    refine ⟨((bucketsOf modules).merged module.identity,
      modules.filter fun other => other.identity = module.identity), ?_, by simp [hmodule]⟩
    refine List.mem_filter.mpr ⟨List.mem_map.mpr ⟨(module.identity, _), ?_, rfl⟩, ?_⟩
    · exact mem_bucketsOf.mpr ⟨⟨module, hmodule, rfl⟩, rfl⟩
    · exact decide_eq_true hplanned

/-- No module is collected twice. -/
theorem nodup_collected_collapse (h : modules.Nodup) :
    (collected (collapseItems modules) identity).Nodup := by
  unfold collected collapseItems
  rw [List.filter_map, List.flatMap_map, List.nodup_flatMap]
  constructor
  · rintro ⟨key, found⟩ hbucket
    obtain ⟨-, rfl⟩ := mem_bucketsOf.mp (List.mem_of_mem_filter hbucket)
    exact h.filter _
  · have hkeys := (collects_bucketsOf modules).nodup
    rw [List.Nodup, List.pairwise_map] at hkeys
    refine ((hkeys.filter _).imp_of_mem fun {a b} ha hb hne => ?_)
    obtain ⟨keya, founda⟩ := a
    obtain ⟨keyb, foundb⟩ := b
    obtain ⟨-, rfl⟩ := mem_bucketsOf.mp (List.mem_of_mem_filter ha)
    obtain ⟨-, rfl⟩ := mem_bucketsOf.mp (List.mem_of_mem_filter hb)
    intro module hmodule hmodule'
    exact hne ((of_decide_eq_true (List.mem_filter.mp hmodule).2).symm.trans
      (of_decide_eq_true (List.mem_filter.mp hmodule').2))

/-- **What `_collapse` makes**: each planned identity, with its modules in some order. -/
theorem mem_collapse (h : modules.Nodup)
    (hbucket : (identity, members) ∈ (bucketsOf modules).collapse) :
    (∃ module ∈ modules, plannedIdentity modules module = identity) ∧
      members.Perm (plannedMembers modules identity) := by
  obtain ⟨hkey, rfl⟩ := ((collects_collapse modules).mem_iff _ _).mp hbucket
  constructor
  · obtain ⟨item, hitem, rfl⟩ := List.mem_map.mp hkey
    obtain ⟨⟨key, found⟩, hfound, rfl⟩ := List.mem_map.mp hitem
    obtain ⟨⟨module, hmodule, rfl⟩, -⟩ := mem_bucketsOf.mp hfound
    exact ⟨module, hmodule, rfl⟩
  · exact (List.perm_ext_iff_of_nodup (nodup_collected_collapse h) (h.filter _)).mpr
      fun module => mem_collected_collapse

theorem exists_mem_collapse {module : LegacyModule} (hmodule : module ∈ modules) :
    ∃ members, (plannedIdentity modules module, members) ∈ (bucketsOf modules).collapse := by
  have hbucket : (module.identity, modules.filter fun other => other.identity = module.identity) ∈
      bucketsOf modules := mem_bucketsOf.mpr ⟨⟨module, hmodule, rfl⟩, rfl⟩
  refine ⟨_, ((collects_collapse modules).mem_iff _ _).mpr ⟨?_, rfl⟩⟩
  exact List.mem_map.mpr ⟨_, List.mem_map.mpr ⟨_, hbucket, rfl⟩, rfl⟩

end Planned

/-! ## Proposals -/

section Proposals

variable [Hashing] [Slugify] {modules : List LegacyModule} {identity : PlanIdentity}

/-- The digits of a key that tell identities apart. -/
def keyDigest (identity : PlanIdentity) : PyStr :=
  (sha256 (encodeUtf8 (List.intercalate [0] identity.parts))).take 8

omit [Hashing] [Slugify] in
/-- Uploaded modules are planned alone. -/
theorem eq_of_planned_upload (hpks : (modules.map LegacyModule.pk).Nodup) {pk : Id}
    {a b : LegacyModule} (ha : a ∈ plannedMembers modules (.upload pk))
    (hb : b ∈ plannedMembers modules (.upload pk)) : a = b := by
  have hpk : ∀ module ∈ plannedMembers modules (.upload pk), module.pk = pk := by
    intro module hmodule
    have hplanned := (mem_plannedMembers.mp hmodule).2
    unfold plannedIdentity LegacyModule.identity at hplanned
    split at hplanned
    · rw [Buckets.merged] at hplanned
      exact PlanIdentity.upload.inj hplanned
    · cases hplanned
  exact List.inj_on_of_nodup_map hpks (mem_plannedMembers.mp ha).1 (mem_plannedMembers.mp hb).1
    ((hpk a ha).trans (hpk b hb).symm)

/-- The order of the members does not change their proposal. -/
theorem propose_perm {members members' : List LegacyModule} (hperm : members.Perm members')
    (halone : ∀ pk, identity = .upload pk → ∀ a ∈ members, ∀ b ∈ members, a = b) :
    propose identity members = propose identity members' := by
  have hpks : (members.map LegacyModule.pk).insertionSort (· ≤ ·) =
      (members'.map LegacyModule.pk).insertionSort (· ≤ ·) := by
    refine @List.Perm.eq_of_pairwise _ (· ≤ ·) _ _ (fun a b _ _ => le_antisymm)
      (List.pairwise_insertionSort _ _) (List.pairwise_insertionSort _ _) ?_
    exact ((List.perm_insertionSort _ _).trans (hperm.map _)).trans
      (List.perm_insertionSort _ _).symm
  cases identity with
  | dataSource source folder => simp only [propose, hpks]
  | upload pk =>
    have hhead : members.head? = members'.head? := by
      cases members with
      | nil => rw [List.nil_perm.mp hperm]
      | cons a members =>
        cases members' with
        | nil => exact absurd hperm.length_eq (by simp)
        | cons b members' =>
          exact congrArg some (halone pk rfl a (by simp) b (hperm.mem_iff.mpr (by simp)))
    simp only [propose, hpks, hhead]

/-- The proposal of a planned identity. -/
def planned (modules : List LegacyModule) (identity : PlanIdentity) : ProposedProject :=
  propose identity (plannedMembers modules identity)

theorem propose_collapse (hpks : (modules.map LegacyModule.pk).Nodup)
    {members : List LegacyModule} (h : (identity, members) ∈ (bucketsOf modules).collapse) :
    propose identity members = planned modules identity := by
  obtain ⟨-, hperm⟩ := mem_collapse hpks.of_map h
  refine propose_perm hperm fun pk heq a ha b hb => ?_
  subst heq
  exact eq_of_planned_upload hpks (hperm.mem_iff.mp ha) (hperm.mem_iff.mp hb)

/-- **The proposals** are those of the planned identities. -/
theorem mem_group (hpks : (modules.map LegacyModule.pk).Nodup) {plan : ProposedProject} :
    plan ∈ group modules ↔
      ∃ module ∈ modules, plan = planned modules (plannedIdentity modules module) := by
  unfold group
  rw [List.mem_insertionSort, List.mem_map]
  constructor
  · rintro ⟨⟨identity, members⟩, hbucket, rfl⟩
    obtain ⟨⟨module, hmodule, rfl⟩, -⟩ := mem_collapse hpks.of_map hbucket
    exact ⟨module, hmodule, propose_collapse hpks hbucket⟩
  · rintro ⟨module, hmodule, rfl⟩
    obtain ⟨members, hbucket⟩ := exists_mem_collapse hmodule
    exact ⟨_, hbucket, propose_collapse hpks hbucket⟩

theorem mem_modulePks_planned {pk : Id} : pk ∈ (planned modules identity).modulePks ↔
    ∃ module ∈ plannedMembers modules identity, module.pk = pk := by
  have hpks : (planned modules identity).modulePks =
      ((plannedMembers modules identity).map LegacyModule.pk).insertionSort (· ≤ ·) := by
    unfold planned propose
    cases identity <;> rfl
  rw [hpks, List.mem_insertionSort, List.mem_map]

/-- A module is a member of the proposal that is made for it, and of no other. -/
theorem pk_mem_planned_iff (hpks : (modules.map LegacyModule.pk).Nodup) {module : LegacyModule}
    (hmodule : module ∈ modules) : module.pk ∈ (planned modules identity).modulePks ↔
      plannedIdentity modules module = identity := by
  rw [mem_modulePks_planned]
  constructor
  · rintro ⟨other, hother, hpk⟩
    obtain ⟨hother, hplanned⟩ := mem_plannedMembers.mp hother
    rwa [← List.inj_on_of_nodup_map hpks hother hmodule hpk]
  · exact fun h => ⟨module, mem_plannedMembers.mpr ⟨hmodule, h⟩, rfl⟩

/-! ### Keys -/

/-- A key is its identity's digits after a stem of at most 91 characters. -/
theorem exists_planKey (identity : PlanIdentity) (members : List LegacyModule) :
    ∃ stem : PyStr, stem.length ≤ 91 ∧
      (propose identity members).key = stem ++ py "-" ++ keyDigest identity := by
  have hkey : ∀ stem : PyStr, ∃ slug : PyStr, slug.length ≤ 91 ∧
      planKey stem identity = slug ++ py "-" ++ keyDigest identity := by
    intro stem
    unfold planKey
    dsimp only
    split_ifs with hempty
    · exact ⟨py "project", by decide, rfl⟩
    · exact ⟨_, by rw [List.length_take]; exact min_le_left _ _, rfl⟩
  cases identity with
  | upload pk => exact hkey _
  | dataSource source folder => exact hkey _

theorem length_key (identity : PlanIdentity) (members : List LegacyModule) :
    (propose identity members).key.length ≤ 100 := by
  obtain ⟨stem, hstem, hkey⟩ := exists_planKey identity members
  have hdigest : (keyDigest identity).length ≤ 8 := by
    rw [keyDigest, List.length_take]
    exact min_le_left _ _
  have hdash : (py "-").length = 1 := rfl
  rw [hkey, List.length_append, List.length_append]
  omega

/-- A key tells the digits of its identity. -/
theorem keyDigest_eq_of_key (hhex : ∀ content, isHexDigest (sha256 content) = true)
    {identity' : PlanIdentity} {members members' : List LegacyModule}
    (h : (propose identity members).key = (propose identity' members').key) :
    keyDigest identity = keyDigest identity' := by
  have hlength : ∀ identity, (keyDigest identity).length = 8 := by
    intro identity
    have hdigest := hhex (encodeUtf8 (List.intercalate [0] identity.parts))
    simp only [isHexDigest, Bool.and_eq_true, beq_iff_eq] at hdigest
    rw [keyDigest, List.length_take, hdigest.1]
    rfl
  obtain ⟨stem, -, hkey⟩ := exists_planKey identity members
  obtain ⟨stem', -, hkey'⟩ := exists_planKey identity' members'
  rw [hkey, hkey'] at h
  exact (List.append_inj' h ((hlength _).trans (hlength _).symm)).2

/-- The first eight digits tell the planned identities apart. -/
def DigitsTell (modules : List LegacyModule) : Prop :=
  ∀ a ∈ modules, ∀ b ∈ modules,
    keyDigest (plannedIdentity modules a) = keyDigest (plannedIdentity modules b) →
      plannedIdentity modules a = plannedIdentity modules b

/-- **No two proposals share a key**. -/
theorem nodup_keys_group (hpks : (modules.map LegacyModule.pk).Nodup)
    (hhex : ∀ content, isHexDigest (sha256 content) = true) (hdigits : DigitsTell modules) :
    ((group modules).map ProposedProject.key).Nodup := by
  unfold group
  refine (((List.perm_insertionSort _ _).map _).nodup_iff).mpr ?_
  rw [List.map_map]
  refine List.Nodup.map_on ?_ (collects_collapse modules).nodup.of_map
  rintro ⟨identity, members⟩ hbucket ⟨identity', members'⟩ hbucket' hkey
  obtain ⟨⟨a, ha, rfl⟩, -⟩ := mem_collapse hpks.of_map hbucket
  obtain ⟨⟨b, hb, rfl⟩, -⟩ := mem_collapse hpks.of_map hbucket'
  have hsame := hdigits a ha b hb (keyDigest_eq_of_key hhex hkey)
  have hmembers := ((collects_collapse modules).mem_iff _ _).mp hbucket
  have hmembers' := ((collects_collapse modules).mem_iff _ _).mp hbucket'
  rw [Prod.mk.injEq, hmembers.2, hmembers'.2, hsame]
  exact ⟨rfl, rfl⟩

/-- The proposals of the same modules in another order. -/
theorem planned_perm (hpks : (modules.map LegacyModule.pk).Nodup) {modules' : List LegacyModule}
    (hperm : modules.Perm modules') : planned modules identity = planned modules' identity := by
  have hmembers : (plannedMembers modules identity).Perm (plannedMembers modules' identity) := by
    have hcongr : plannedMembers modules identity =
        modules.filter fun module => plannedIdentity modules' module = identity :=
      List.filter_congr fun module hmodule => by
        rw [plannedIdentity_congr (fun _ => hperm.mem_iff) hmodule]
    rw [hcongr]
    exact hperm.filter _
  exact propose_perm hmembers fun pk heq a ha b hb => by
    subst heq
    exact eq_of_planned_upload hpks ha hb

/-- **The order of the modules does not matter**. -/
theorem group_perm (hpks : (modules.map LegacyModule.pk).Nodup)
    (hhex : ∀ content, isHexDigest (sha256 content) = true) (hdigits : DigitsTell modules)
    {modules' : List LegacyModule} (hperm : modules.Perm modules') :
    group modules = group modules' := by
  have hpks' := (hperm.map LegacyModule.pk).nodup_iff.mp hpks
  have hidentity : ∀ module ∈ modules,
      plannedIdentity modules module = plannedIdentity modules' module := fun module hmodule =>
    plannedIdentity_congr (fun _ => hperm.mem_iff) hmodule
  have hdigits' : DigitsTell modules' := by
    intro a ha b hb
    rw [← hperm.mem_iff] at ha hb
    rw [← hidentity a ha, ← hidentity b hb]
    exact hdigits a ha b hb
  have hkeys := nodup_keys_group hpks hhex hdigits
  have hmem : ∀ plan, plan ∈ group modules ↔ plan ∈ group modules' := by
    intro plan
    rw [mem_group hpks, mem_group hpks']
    constructor
    · rintro ⟨module, hmodule, rfl⟩
      exact ⟨module, hperm.mem_iff.mp hmodule, by
        rw [hidentity module hmodule, planned_perm hpks hperm]⟩
    · rintro ⟨module, hmodule, rfl⟩
      rw [← hperm.mem_iff] at hmodule
      exact ⟨module, hmodule, by rw [hidentity module hmodule, planned_perm hpks hperm]⟩
  refine @List.Perm.eq_of_pairwise _ (fun a b : ProposedProject => a.key ≤ b.key) _ _ ?_
    (List.pairwise_insertionSort _ _) (List.pairwise_insertionSort _ _) ?_
  · intro a b ha hb hab hba
    exact List.inj_on_of_nodup_map hkeys ha ((hmem b).mpr hb) (le_antisymm hab hba)
  · exact (List.perm_ext_iff_of_nodup hkeys.of_map
      (nodup_keys_group hpks' hhex hdigits').of_map).mpr hmem

/-! ### Source paths -/

omit [Hashing] [Slugify] in
/-- A member from a data source is planned under a folder above its own. -/
theorem planned_above {module : LegacyModule} {source : Id}
    (hsource : module.dataSource = some source) :
    ∃ best, plannedIdentity modules module = .dataSource source best ∧
      dataSegments best <+: dataSegments (dirname module.dataPath) := by
  have hidentity : module.identity = .dataSource source (dirname module.dataPath) := by
    rw [LegacyModule.identity, hsource]
  exact ⟨_, plannedIdentity_dataSource hidentity, isContainer_container.above⟩

/-- **A member from a data source has a source path**, below the folder of its proposal. -/
theorem sourcePathFor_planned [Unicode] {module : LegacyModule} {source : Id}
    (hsource : module.dataSource = some source)
    (hcanonical : ∃ value, normalizeDataPath value = .ok module.dataPath) :
    ∃ best path, dataSourceRelativePath module.dataPath best = some path ∧
      plannedIdentity modules module = .dataSource source best ∧
        (planned modules (plannedIdentity modules module)).sourcePathFor module =
          .ok (some path) := by
  obtain ⟨value, hvalue⟩ := hcanonical
  obtain ⟨best, hplanned, habove⟩ := @planned_above modules _ _ hsource
  obtain ⟨path, hpath⟩ := claimed_of_above hvalue habove
  refine ⟨best, path, hpath, hplanned, ?_⟩
  rw [hplanned]
  exact congrArg Except.ok hpath

omit [Hashing] [Slugify] in
/-- Modules planned under one folder of a data source come from it. -/
theorem dataSource_of_planned {module : LegacyModule} {source : Id} {best : PyStr}
    (h : plannedIdentity modules module = .dataSource source best) :
    module.dataSource = some source := by
  obtain ⟨folder, hidentity, -⟩ := identity_of_planned h
  unfold LegacyModule.identity at hidentity
  split at hidentity
  · cases hidentity
  · next hsource =>
    cases hidentity
    exact hsource

/-- **Members with different data paths** have different source paths. -/
theorem sourcePathFor_ne [Unicode] (hpks : (modules.map LegacyModule.pk).Nodup)
    (hcanonical : ∀ module ∈ modules, ∃ value, normalizeDataPath value = .ok module.dataPath)
    {a b : LegacyModule} (ha : a ∈ plannedMembers modules identity)
    (hb : b ∈ plannedMembers modules identity) (hne : a.dataPath ≠ b.dataPath) :
    (planned modules identity).sourcePathFor a ≠ (planned modules identity).sourcePathFor b := by
  cases identity with
  | upload pk => exact absurd (congrArg _ (eq_of_planned_upload hpks ha hb)) hne
  | dataSource source best =>
    obtain ⟨hmema, hplanneda⟩ := mem_plannedMembers.mp ha
    obtain ⟨hmemb, hplannedb⟩ := mem_plannedMembers.mp hb
    obtain ⟨_, patha, hclaimeda, hbesta, hpatha⟩ := @sourcePathFor_planned _ _ modules _ _ _
      (dataSource_of_planned hplanneda) (hcanonical a hmema)
    obtain ⟨_, pathb, hclaimedb, hbestb, hpathb⟩ := @sourcePathFor_planned _ _ modules _ _ _
      (dataSource_of_planned hplannedb) (hcanonical b hmemb)
    rw [hplanneda] at hpatha hbesta
    rw [hplannedb] at hpathb hbestb
    obtain ⟨-, rfl⟩ := PlanIdentity.dataSource.inj hbesta
    obtain ⟨-, rfl⟩ := PlanIdentity.dataSource.inj hbestb
    intro heq
    rw [hpatha, hpathb] at heq
    obtain rfl := Option.some.inj (Except.ok.inj heq)
    exact hne (dataSourceRelativePath_inj hclaimeda hclaimedb)

omit [Hashing] [Slugify] in
/-- Proposals on one data source are apart. -/
theorem planned_apart {a b : LegacyModule} (ha : a ∈ modules) (hb : b ∈ modules)
    {source : Id} {besta bestb : PyStr}
    (hplanneda : plannedIdentity modules a = .dataSource source besta)
    (hplannedb : plannedIdentity modules b = .dataSource source bestb)
    (hoverlap : dataPathsOverlap besta bestb = true) :
    plannedIdentity modules a = plannedIdentity modules b := by
  obtain ⟨foldera, hidentitya, hcontainera⟩ := identity_of_planned hplanneda
  obtain ⟨folderb, hidentityb, hcontainerb⟩ := identity_of_planned hplannedb
  rw [hplanneda, hplannedb, hcontainera.apart hcontainerb (mem_folders.mpr ⟨a, ha, hidentitya⟩)
    (mem_folders.mpr ⟨b, hb, hidentityb⟩) hoverlap]

/-- Proposals with different keys on one data source do not overlap. -/
theorem apart_of_group [Unicode] (hpks : (modules.map LegacyModule.pk).Nodup)
    (hkeys : ((group modules).map ProposedProject.key).Nodup) :
    (group modules).Pairwise fun a b => a.sourceType = .dataSource → b.sourceType = .dataSource →
      a.dataSource = b.dataSource → dataPathsOverlap a.dataPath b.dataPath = false := by
  refine hkeys.of_map.imp_of_mem fun {a b} ha hb hne hsa hsb hsource => ?_
  obtain ⟨a, hmema, rfl⟩ := (mem_group hpks).mp ha
  obtain ⟨b, hmemb, rfl⟩ := (mem_group hpks).mp hb
  cases hplanneda : plannedIdentity modules a with
  | upload pk =>
    rw [hplanneda] at hsa
    cases hsa
  | dataSource source besta =>
    cases hplannedb : plannedIdentity modules b with
    | upload pk =>
      rw [hplannedb] at hsb
      cases hsb
    | dataSource source' bestb =>
      rw [hplanneda, hplannedb] at hsource hne
      obtain rfl := Option.some.inj hsource
      -- overlapping folders are collected into one, so the two proposals would be the same
      by_contra hoverlap
      rw [Bool.not_eq_false] at hoverlap
      have hsame := planned_apart hmema hmemb hplanneda hplannedb hoverlap
      rw [hplanneda, hplannedb] at hsame
      exact hne (by rw [hsame])

/-- **The proposals partition the modules**: each module is in one of them, those on one data
source do not overlap, every member from a data source has a source path there and members with
different data paths have different ones, the keys fit their column and are apart, and the order
of the modules does not matter. -/
theorem group_partitions [Unicode] (hpks : (modules.map LegacyModule.pk).Nodup)
    (hcanonical : ∀ module ∈ modules, ∃ value, normalizeDataPath value = .ok module.dataPath)
    (hhex : ∀ content, isHexDigest (sha256 content) = true) (hdigits : DigitsTell modules) :
    (∀ module ∈ modules, ∃! plan, plan ∈ group modules ∧ module.pk ∈ plan.modulePks) ∧
    (group modules).Pairwise (fun a b => a.sourceType = .dataSource → b.sourceType = .dataSource →
      a.dataSource = b.dataSource → dataPathsOverlap a.dataPath b.dataPath = false) ∧
    (∀ plan ∈ group modules, ∀ module ∈ modules, module.pk ∈ plan.modulePks →
      module.dataSource ≠ none → ∃ path, plan.sourcePathFor module = .ok (some path)) ∧
    (∀ plan ∈ group modules, ∀ a ∈ modules, ∀ b ∈ modules, a.pk ∈ plan.modulePks →
      b.pk ∈ plan.modulePks → a.dataPath ≠ b.dataPath →
        plan.sourcePathFor a ≠ plan.sourcePathFor b) ∧
    (∀ plan ∈ group modules, plan.key.length ≤ 100) ∧
    ((group modules).map ProposedProject.key).Nodup ∧
    ∀ modules', modules.Perm modules' → group modules' = group modules := by
  have hkeys := nodup_keys_group hpks hhex hdigits
  refine ⟨?_, apart_of_group hpks hkeys, ?_, ?_, ?_, hkeys,
    fun _ hperm => (group_perm hpks hhex hdigits hperm).symm⟩
  · intro module hmodule
    refine ⟨planned modules (plannedIdentity modules module),
      ⟨(mem_group hpks).mpr ⟨module, hmodule, rfl⟩, (pk_mem_planned_iff hpks hmodule).mpr rfl⟩, ?_⟩
    rintro plan ⟨hplan, hpk⟩
    obtain ⟨other, hother, rfl⟩ := (mem_group hpks).mp hplan
    rw [(pk_mem_planned_iff hpks hmodule).mp hpk]
  · intro plan hplan module hmodule hpk hsource
    obtain ⟨other, -, rfl⟩ := (mem_group hpks).mp hplan
    obtain ⟨source, hsource⟩ := Option.ne_none_iff_exists'.mp hsource
    obtain ⟨-, path, -, -, hpath⟩ :=
      @sourcePathFor_planned _ _ modules _ _ _ hsource (hcanonical module hmodule)
    rw [← (pk_mem_planned_iff hpks hmodule).mp hpk]
    exact ⟨path, hpath⟩
  · intro plan hplan a ha b hb hpka hpkb
    obtain ⟨other, -, rfl⟩ := (mem_group hpks).mp hplan
    exact sourcePathFor_ne hpks hcanonical
      (mem_plannedMembers.mpr ⟨ha, (pk_mem_planned_iff hpks ha).mp hpka⟩)
      (mem_plannedMembers.mpr ⟨hb, (pk_mem_planned_iff hpks hb).mp hpkb⟩)
  · intro plan hplan
    obtain ⟨module, -, rfl⟩ := (mem_group hpks).mp hplan
    exact length_key _ _

end Proposals

/-! ## A nested folder -/

/-- An uploaded module, a module of a folder, and one of a folder below it. -/
def nestedModules : List LegacyModule :=
  [⟨1, py "u.py", py "u", none, [], []⟩, ⟨2, py "x.py", py "x", some 7, py "a/x.py", []⟩,
    ⟨3, py "y.py", py "y", some 7, py "a/b/y.py", []⟩]

/-- A hash that tells the upload from the folder. -/
@[reducible] def nestedHashing : Hashing :=
  tableHashing [(encodeUtf8 (py "upload\x001"), py hashOfX)]

/-- The module of the lower folder is in one proposal. -/
theorem group_partitions_nested :
    ∃! plan, plan ∈ @group nestedHashing ⟨id⟩ nestedModules ∧ 3 ∈ plan.modulePks := by
  have hplanned : nestedModules.map (plannedIdentity nestedModules) =
      [.upload 1, .dataSource 7 (py "a"), .dataSource 7 (py "a")] := by decide +kernel
  refine (@group_partitions nestedHashing ⟨id⟩ nestedModules asciiUnicode (by decide)
    (fun module hmodule => ⟨module.dataPath, ?_⟩) (isHexDigest_tableHashing ?_)
    fun a ha b hb => ?_).1 ⟨3, py "y.py", py "y", some 7, py "a/b/y.py", []⟩ (by decide)
  · revert module
    decide
  · intro row hrow
    rw [List.mem_singleton.mp hrow]
    decide
  · have hidentity : ∀ module ∈ nestedModules, plannedIdentity nestedModules module ∈
        [PlanIdentity.upload 1, .dataSource 7 (py "a")] := by
      intro module hmodule
      have hmem := List.mem_map_of_mem (f := plannedIdentity nestedModules) hmodule
      rw [hplanned] at hmem
      simpa using hmem
    have hdigits : ∀ i ∈ [PlanIdentity.upload 1, .dataSource 7 (py "a")],
        ∀ j ∈ [PlanIdentity.upload 1, .dataSource 7 (py "a")],
          @keyDigest nestedHashing i = @keyDigest nestedHashing j → i = j := by decide +kernel
    exact hdigits _ (hidentity a ha) _ (hidentity b hb)

end NetBoxScripts
