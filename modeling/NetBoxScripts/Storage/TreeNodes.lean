import NetBoxScripts.Storage.Manifest

/-!
# The nodes of a source tree

A path stands for a file and the directories above it. Which paths can be files of one tree, on a
host that ignores letter case too, is a question about these nodes.

## Main definitions

* `IsNode`, `IsAbove`: a path or a directory above it, and the latter alone
* `UnicodeLaws`: what is relied on of `unicodedata.normalize` and `str.lower`
* `Fits`: the nodes of a path collide with none of a list

## Main results

* `mem_ancestors`: the ancestors of a path are the nodes above it
* `caseFoldConflict_eq_none_iff_fits`: what is reported as a collision
* `coexist_iff`: which paths can be files of one tree
-/

namespace NetBoxScripts

/-! ## Above -/

section Above

variable {node above path : PyStr}

/-- The path or one of its ancestor directories. -/
def IsNode (node path : PyStr) : Prop := split node <+: split path

/-- One of the ancestor directories of a path. -/
def IsAbove (above path : PyStr) : Prop := IsNode above path ∧ above ≠ path

theorem split_injective : Function.Injective split := by
  intro s t h
  rw [← join_split s, h, join_split]

theorem join_append {a b : List PyStr} (ha : a ≠ []) (hb : b ≠ []) :
    join (a ++ b) = join a ++ slash :: join b := by
  induction a with
  | nil => exact absurd rfl ha
  | cons s a ih =>
    rcases eq_or_ne a [] with rfl | hne
    · rw [List.singleton_append, join_cons hb, join_singleton]
    · rw [List.cons_append, join_cons (by simp [hne]), ih hne, join_cons hne]
      simp

/-- A path is longer than the directories above it. -/
theorem IsAbove.exists_append (h : IsAbove above path) : ∃ rest, path = above ++ slash :: rest := by
  obtain ⟨⟨rest, hrest⟩, hne⟩ := h
  have hrest_ne : rest ≠ [] := by
    rintro rfl
    rw [List.append_nil] at hrest
    exact hne (split_injective hrest)
  refine ⟨join rest, ?_⟩
  rw [← join_split path, ← hrest, join_append (split_ne_nil above) hrest_ne, join_split]

/-- The first segments of a path are a node of it. -/
theorem split_join_take {index : ℕ} (hpos : 0 < index) :
    split (join ((split path).take index)) = (split path).take index := by
  apply split_join
  · intro s hs
    exact slash_notMem_of_mem_split (List.mem_of_mem_take hs)
  · rw [ne_eq, List.take_eq_nil_iff, not_or]
    exact ⟨by omega, split_ne_nil path⟩

theorem isNode_iff_exists_take :
    IsNode node path ↔ ∃ index < (split path).length, node = join ((split path).take (index + 1)) := by
  constructor
  · intro h
    -- a node has at least one segment, so the index of its last one is below the length
    have hpos := List.length_pos_iff.mpr (split_ne_nil node)
    have hle := List.IsPrefix.length_le h
    refine ⟨(split node).length - 1, by omega, ?_⟩
    rw [Nat.sub_add_cancel hpos, ← List.prefix_iff_eq_take.mp h, join_split]
  · rintro ⟨index, -, rfl⟩
    rw [IsNode, split_join_take (Nat.succ_pos index)]
    exact List.take_prefix _ _

/-- **The ancestors of a path** are the nodes above it. -/
theorem mem_ancestors : above ∈ ancestors path ↔ IsAbove above path := by
  simp only [ancestors, List.mem_map, List.mem_range'_1]
  constructor
  · rintro ⟨index, ⟨hpos, hlt⟩, rfl⟩
    have hsplit : split (join ((split path).take index)) = (split path).take index :=
      split_join_take hpos
    refine ⟨?_, fun heq => ?_⟩
    · rw [IsNode, hsplit]
      exact List.take_prefix _ _
    -- the first `index` segments are fewer than those of the path
    · have hlength := congrArg List.length (hsplit.symm.trans (congrArg split heq))
      rw [List.length_take] at hlength
      omega
  · rintro ⟨hnode, hne⟩
    have hpos := List.length_pos_iff.mpr (split_ne_nil above)
    have hlt : (split above).length < (split path).length := by
      refine lt_of_le_of_ne (List.IsPrefix.length_le hnode) fun heq => hne ?_
      exact split_injective (List.IsPrefix.eq_of_length hnode heq)
    refine ⟨(split above).length, ⟨hpos, by omega⟩, ?_⟩
    rw [← List.prefix_iff_eq_take.mp hnode, join_split]

/-- A blocked path is below one of the files. -/
theorem blockingAncestor_none_iff {files : List PyStr} :
    blockingAncestor files path = none ↔ ∀ file ∈ files, ¬ IsAbove file path := by
  rw [blockingAncestor_eq_none_iff]
  constructor
  · intro h file hfile habove
    exact h file (mem_ancestors.mpr habove) hfile
  · intro h ancestor hancestor hfile
    exact h ancestor hfile (mem_ancestors.mp hancestor)

end Above

/-! ## Letter case -/

section Case

variable [Unicode] {paths : List PyStr} {path node form : PyStr}

/-- What is relied on of the interpreter's tables: NFC makes no surrogate, and each character has a
lower-case form of its own, so a longer text has another. -/
structure UnicodeLaws : Prop where
  nfc_scalar : ∀ s, (∀ c ∈ s, isScalar c) → ∀ c ∈ nfc s, isScalar c
  lower_append : ∀ s t, t ≠ [] → lower (s ++ t) ≠ lower s

/-- Nodes of one path with one form are one. -/
theorem UnicodeLaws.node_eq (laws : UnicodeLaws) {a b : PyStr} (ha : IsNode a path)
    (hb : IsNode b path) (h : lower a = lower b) : a = b := by
  by_contra hne
  -- of two nodes of one path one is above the other, and so a longer text
  rcases List.prefix_or_prefix_of_prefix ha hb with hab | hab
  · obtain ⟨rest, rfl⟩ := IsAbove.exists_append ⟨hab, hne⟩
    exact laws.lower_append a _ (List.cons_ne_nil _ _) h.symm
  · obtain ⟨rest, rfl⟩ := IsAbove.exists_append ⟨hab, Ne.symm hne⟩
    exact laws.lower_append b _ (List.cons_ne_nil _ _) h

/-- The nodes of a path, by their forms. -/
theorem UnicodeLaws.mem_caseInsensitiveNodes (laws : UnicodeLaws) :
    (form, node) ∈ caseInsensitiveNodes path ↔ IsNode node path ∧ form = lower node := by
  -- a dictionary filled under distinct keys is the list of its entries
  have hdict : ∀ (nodes : List PyStr) (seen : List (PyStr × PyStr)),
      ((seen.map Prod.fst) ++ nodes.map lower).Nodup →
      nodes.foldl (fun byForm node =>
        if (byForm.map Prod.fst).contains (lower node) then
          byForm.map fun entry => if entry.1 = lower node then (lower node, node) else entry
        else byForm ++ [(lower node, node)]) seen =
        seen ++ nodes.map fun node => (lower node, node) := by
    intro nodes
    induction nodes with
    | nil => simp
    | cons first nodes ih =>
      intro seen hnodup
      have hnew : (seen.map Prod.fst).contains (lower first) = false := by
        rw [List.contains_eq_mem, decide_eq_false_iff_not]
        intro hmem
        rw [List.map_cons] at hnodup
        exact (List.nodup_append.mp hnodup).2.2 _ hmem _ List.mem_cons_self rfl
      rw [List.foldl_cons, hnew, if_neg Bool.false_ne_true, ih]
      · simp
      · simpa using hnodup
  -- the forms of the nodes are distinct
  have hnodes : (((List.range (split path).length).map fun index =>
      join ((split path).take (index + 1))).map lower).Nodup := by
    rw [List.map_map]
    refine List.Nodup.map_on (fun i hi j hj h => ?_) List.nodup_range
    have hi := List.mem_range.mp hi
    have hj := List.mem_range.mp hj
    have hsame := laws.node_eq (isNode_iff_exists_take.mpr ⟨i, hi, rfl⟩)
      (isNode_iff_exists_take.mpr ⟨j, hj, rfl⟩) h
    have hlength := congrArg (List.length ∘ split) hsame
    simp only [Function.comp_apply, split_join_take (Nat.succ_pos _), List.length_take] at hlength
    omega
  rw [caseInsensitiveNodes, hdict _ [] hnodes, List.nil_append, List.mem_map]
  simp only [List.mem_map, List.mem_range, Prod.mk.injEq]
  constructor
  · rintro ⟨_, ⟨index, hindex, rfl⟩, rfl, rfl⟩
    exact ⟨isNode_iff_exists_take.mpr ⟨index, hindex, rfl⟩, rfl⟩
  · rintro ⟨hnode, rfl⟩
    obtain ⟨index, hindex, rfl⟩ := isNode_iff_exists_take.mp hnode
    exact ⟨_, ⟨index, hindex, rfl⟩, rfl, rfl⟩

theorem UnicodeLaws.mem_namesByForm (laws : UnicodeLaws) :
    node ∈ namesByForm paths form ↔ (∃ path ∈ paths, IsNode node path) ∧ lower node = form := by
  simp only [namesByForm, List.mem_map, List.mem_filter, List.mem_flatMap, decide_eq_true_eq,
    Prod.exists, exists_eq_right, laws.mem_caseInsensitiveNodes]
  constructor
  · rintro ⟨path, hpath, hnode, rfl⟩
    exact ⟨⟨path, hpath, hnode⟩, rfl⟩
  · rintro ⟨⟨path, hpath, hnode⟩, rfl⟩
    exact ⟨path, hpath, hnode, rfl⟩

/-- The nodes of the path are told from all of the paths' when letter case is ignored. -/
def Fits (paths : List PyStr) (path : PyStr) : Prop :=
  ∀ node, IsNode node path → ∀ other, (∃ path' ∈ paths, IsNode other path') →
    lower other = lower node → other = node

/-- A path has no collision where it fits. -/
theorem UnicodeLaws.collisionOf_eq_none_iff (laws : UnicodeLaws) (hpath : path ∈ paths) :
    collisionOf paths path = none ↔ Fits paths path := by
  simp only [collisionOf, Option.map_eq_none_iff, List.find?_eq_none, isCollided, List.any_eq_true,
    decide_eq_true_eq, not_exists, not_and, not_not, Prod.forall, laws.mem_caseInsensitiveNodes,
    laws.mem_namesByForm, ne_eq]
  constructor
  -- the node of the path itself is one of those with the form
  · intro h node hnode other hother hform
    exact h (lower node) node ⟨hnode, rfl⟩ other ⟨hother, hform⟩ node ⟨⟨path, hpath, hnode⟩, rfl⟩
  · rintro h _ node ⟨hnode, rfl⟩ a ⟨ha, hform⟩ b ⟨hb, hform'⟩
    rw [h node hnode a ha hform, h node hnode b hb hform']

theorem Fits.perm {paths' : List PyStr} (h : paths.Perm paths') (hfits : Fits paths path) :
    Fits paths' path := by
  rintro node hnode other ⟨path', hpath', hother⟩ hform
  exact hfits node hnode other ⟨path', h.mem_iff.mpr hpath', hother⟩ hform

/-- **A collision is reported** for the paths that do not fit. -/
theorem UnicodeLaws.caseFoldConflict_eq_none_iff_fits (laws : UnicodeLaws) {entry : ManifestEntry}
    (hpath : entry.path ∈ paths) :
    caseFoldConflict (caseInsensitiveCollisions paths) entry = none ↔ Fits paths entry.path := by
  have hperm := List.perm_insertionSort (· ≤ ·) paths
  have hsorted := hperm.mem_iff.mpr hpath
  rw [caseFoldConflict_eq_none_iff]
  have hfits : Fits (paths.insertionSort (· ≤ ·)) entry.path ↔ Fits paths entry.path :=
    ⟨Fits.perm hperm, Fits.perm hperm.symm⟩
  rw [← hfits, ← laws.collisionOf_eq_none_iff hsorted]
  simp only [caseInsensitiveCollisions, List.mem_filterMap, Option.map_eq_some_iff]
  constructor
  · intro h
    by_contra hne
    obtain ⟨pair, hpair⟩ := Option.ne_none_iff_exists'.mp hne
    exact h (entry.path, pair) ⟨entry.path, hsorted, pair, hpair, rfl⟩ rfl
  · rintro h _ ⟨path, -, pair, hpair, rfl⟩ rfl
    rw [h] at hpair
    cases hpair

/-- **Which paths can be files of one tree**: none is above another, and no two nodes are one
where letter case is ignored. -/
structure OneTree (paths : List PyStr) : Prop where
  no_file_above : ∀ file ∈ paths, ∀ path ∈ paths, ¬ IsAbove file path
  no_collision : ∀ path ∈ paths, Fits paths path

theorem OneTree.perm {paths' : List PyStr} (h : OneTree paths) (hperm : paths.Perm paths') :
    OneTree paths' where
  no_file_above file hfile path hpath :=
    h.no_file_above file (hperm.mem_iff.mpr hfile) path (hperm.mem_iff.mpr hpath)
  no_collision path hpath := (h.no_collision path (hperm.mem_iff.mpr hpath)).perm hperm

theorem UnicodeLaws.coexist_iff (laws : UnicodeLaws) : Coexist paths ↔ OneTree paths := by
  have hcollisions : caseInsensitiveCollisions paths = [] ↔ ∀ path ∈ paths, Fits paths path := by
    constructor
    · intro h path hpath
      -- a collision is looked up by the path alone
      let entry : ManifestEntry := ⟨path, 0, []⟩
      have hmem : entry.path ∈ paths := hpath
      refine (laws.caseFoldConflict_eq_none_iff_fits hmem).mp ?_
      rw [h]
      rfl
    · intro h
      refine List.eq_nil_iff_forall_not_mem.mpr fun c hc => ?_
      let entry : ManifestEntry := ⟨c.1, 0, []⟩
      have hmem : entry.path ∈ paths := mem_of_mem_caseInsensitiveCollisions hc
      have hnone := (laws.caseFoldConflict_eq_none_iff_fits hmem).mpr (h c.1 hmem)
      exact caseFoldConflict_eq_none_iff.mp hnone c hc rfl
  constructor
  · intro h
    exact ⟨fun file hfile path hpath => blockingAncestor_none_iff.mp (h.no_file_above path hpath)
      file hfile, hcollisions.mp h.no_collision⟩
  · intro h
    exact ⟨fun path hpath => blockingAncestor_none_iff.mpr fun file hfile =>
      h.no_file_above file hfile path hpath, hcollisions.mpr h.no_collision⟩

end Case

/-- The tables restricted to ASCII obey the laws. -/
theorem unicodeLaws_ascii : @UnicodeLaws asciiUnicode := by
  refine @UnicodeLaws.mk asciiUnicode (fun s hs => hs) fun s t ht h => ?_
  have hlength := congrArg List.length h
  change ((s ++ t).map _).length = (s.map _).length at hlength
  rw [List.length_map, List.length_map, List.length_append] at hlength
  exact ht (List.length_eq_zero_iff.mp (by omega))

end NetBoxScripts
