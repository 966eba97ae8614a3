import NetBoxScripts.Concurrency.Table
import NetBoxScripts.Models.Rows
import NetBoxScripts.Python.Json
import Mathlib.Data.List.Dedup
import Mathlib.Data.List.Sort

/-!
# Moving permissions

`repoint_permissions` (`references.py`) moves every captured grant on the built-in feature onto
the plugin's types: in place where a permission names nothing else, otherwise by a sibling. A
pass can end between two permissions and be repeated.

## Main definitions

* `capturePermission`: what the cutover records of a permission
* `repointPermission`: one permission, in one transaction
* `attemptPermissions`: one pass, which may die between two permissions
* `Grants`: what a captured permission and its sibling name

## Main results

* `standing_run`: each captured permission is as the fence left it, swapped or split
* `grants_of_moved`: what is granted once a permission has moved
* `repointed_permissions`: no run widens or narrows what was captured
-/

namespace NetBoxScripts

/-! ## Rows and the journal -/

/-- An `ObjectPermission`. The types, users and groups are those of its relations. -/
structure ObjectPermission where
  name : PyStr
  description : PyStr
  enabled : Bool
  objectTypes : List PyStr
  actions : List PyStr
  constraints : Json
  users : List Id
  groups : List Id

/-- What the journal holds of one permission. -/
structure PermissionEntry where
  pk : Id
  name : PyStr
  description : PyStr
  enabled : Bool
  actions : List PyStr
  constraints : Json
  users : List Id
  groups : List Id
  legacyObjectTypes : List PyStr
  otherObjectTypes : List PyStr

/-- `bool(value)` -/
def Json.truthy : Json → Bool
  | .null => false
  | .bool b => b
  | .int n => n ≠ 0
  | .float x => x.text.any fun c => 49 ≤ c ∧ c ≤ 57
  | .str s => s ≠ []
  | .arr items => !items.isEmpty
  | .obj fields => !fields.isEmpty

/-- `_TYPE_MAP`: which plugin type each built-in type's references move to. -/
def typeMap : List (PyStr × PyStr) :=
  [(py "extras.script", py "netbox_scripts.netboxscript"),
    (py "extras.scriptmodule", py "netbox_scripts.scriptproject")]

/-- `legacy_object_types()`: the types of the built-in feature. -/
def legacyTypes : List PyStr := typeMap.map Prod.fst

/-- `_ACTIONS`: the granted actions with a counterpart, by built-in type. -/
def counterparts : List (PyStr × List PyStr) :=
  [(py "extras.script", [py "view", py "change", py "run"]),
    (py "extras.scriptmodule", [py "view", py "add", py "change", py "delete"])]

/-- `_ACTIONS.get(label, frozenset())` -/
def supportedActions (label : PyStr) : List PyStr := (counterparts.lookup label).getD []

/-- `sorted(items)` -/
def sortedTexts (items : List PyStr) : List PyStr := items.insertionSort (· ≤ ·)

/-- `_capture_permissions()`: one row of it. -/
def capturePermission (pk : Id) (permission : ObjectPermission) : PermissionEntry where
  pk := pk
  name := permission.name
  description := permission.description
  enabled := permission.enabled
  actions := permission.actions
  constraints := permission.constraints
  users := permission.users.insertionSort (· ≤ ·)
  groups := permission.groups.insertionSort (· ≤ ·)
  legacyObjectTypes := sortedTexts (permission.objectTypes.filter (· ∈ legacyTypes))
  otherObjectTypes := sortedTexts (permission.objectTypes.filter (· ∉ legacyTypes))

/-! ## The pass -/

/-- `_map_actions(entry)`: the actions that are kept, and those with no counterpart. -/
def mapActions (entry : PermissionEntry) : List PyStr × List PyStr :=
  let permitted := entry.legacyObjectTypes.flatMap supportedActions
  (entry.actions.filter (· ∈ permitted), (entry.actions.filter (· ∉ permitted)).dedup)

/-- The plugin types that an entry's built-in types move to. -/
def targetTypes (entry : PermissionEntry) : List PyStr :=
  entry.legacyObjectTypes.filterMap fun label => typeMap.lookup label

/-- `_live_keys(model, keys)`: the keys that still exist, and those that do not. -/
def liveKeys (existing : Id → Bool) (keys : List Id) : List Id × List Id :=
  ((keys.filter existing).dedup.insertionSort (· ≤ ·),
    (keys.filter (!existing ·)).dedup.insertionSort (· ≤ ·))

/-- The counts of a pass. -/
structure PermissionCounts where
  swapped : ℕ
  split : ℕ
  constrained : ℕ
  unmappable : ℕ
  deriving DecidableEq, Repr

/-- The rows, the journal's `split_permissions` by captured key, and what the pass reports. -/
structure PermissionState where
  permissions : Table ObjectPermission
  splitPermissions : List (Id × Id)
  stepDone : Bool
  counts : PermissionCounts
  warnings : List PyStr

/-- What one attempt meets: the users and groups there are, how many permissions it gets through
and whether it lives to record the step. -/
structure PermissionAttempt where
  users : Id → Bool
  groups : Id → Bool
  reached : ℕ
  completes : Bool

/-- `_swap_permission(permission, entry, targets, actions)` -/
def swapPermission (entry : PermissionEntry) (permission : ObjectPermission) : ObjectPermission :=
  { permission with
    objectTypes := targetTypes entry
    actions := (mapActions entry).1
    enabled := entry.enabled }

/-- `_split_permission(…)`: the permission without the built-in types. -/
def stripPermission (entry : PermissionEntry) (permission : ObjectPermission) : ObjectPermission :=
  { permission with
    objectTypes := permission.objectTypes.filter (· ∉ entry.legacyObjectTypes)
    enabled := entry.enabled }

/-- `_split_permission(…)`: the sibling. A name longer than the field is cut off. -/
def siblingPermission (nameLength : ℕ) (a : PermissionAttempt) (entry : PermissionEntry)
    (permission : ObjectPermission) : ObjectPermission where
  name := (permission.name ++ py " (Scripts)").take nameLength
  description := entry.description
  enabled := entry.enabled
  objectTypes := targetTypes entry
  actions := (mapActions entry).1
  constraints := .null
  users := (liveKeys a.users entry.users).1
  groups := (liveKeys a.groups entry.groups).1

/-- The warning of a split that lost users or groups. -/
def lostHoldersWarning (a : PermissionAttempt) (entry : PermissionEntry)
    (sibling : ObjectPermission) : List PyStr :=
  let lost := (liveKeys a.users entry.users).2.length + (liveKeys a.groups entry.groups).2.length
  if lost = 0 then []
  else [py "Permission \"" ++ entry.name ++ py "\" was split, and " ++ decimal lost ++
    py " of the users and groups it was granted to no longer exist, so the new \"" ++
    sibling.name ++ py "\" does not carry them."]

/-- `_split_permission(run, permission, entry, targets, actions)`. The sibling is found by the
captured permission's key in the journal, as names are not unique. -/
def splitPermission (nameLength : ℕ) (a : PermissionAttempt) (state : PermissionState)
    (entry : PermissionEntry) (permission : ObjectPermission) : PermissionState :=
  if entry.pk ∈ state.splitPermissions.map Prod.fst then state
  else
    let stripped := state.permissions.modify entry.pk (stripPermission entry)
    let sibling := siblingPermission nameLength a entry permission
    { state with
      permissions := stripped.insert sibling
      splitPermissions := state.splitPermissions ++ [(entry.pk, stripped.next)]
      warnings := state.warnings ++ lostHoldersWarning a entry sibling }

/-- `', '.join(sorted(unmappable))` -/
def unmappableText (entry : PermissionEntry) : PyStr :=
  (py ", ").intercalate (sortedTexts (mapActions entry).2)

/-- The body of the loop of `repoint_permissions`: one captured permission. -/
def repointPermission (nameLength : ℕ) (a : PermissionAttempt) (state : PermissionState)
    (entry : PermissionEntry) : PermissionState :=
  match state.permissions.row entry.pk with
  | none => state
  | some permission =>
    if entry.constraints.truthy then
      { state with
        counts := { state.counts with constrained := state.counts.constrained + 1 }
        warnings := state.warnings ++ [py "Permission \"" ++ entry.name ++
          py ("\" carries constraints on the built-in Custom Scripts, so it was left " ++
            "withdrawn and untranslated. Recreate it by hand against the plugin models.")] }
    else if (mapActions entry).1 = [] then
      { state with
        counts := { state.counts with unmappable := state.counts.unmappable + 1 }
        warnings := state.warnings ++ [py "Permission \"" ++ entry.name ++
          py "\" granted only " ++ unmappableText entry ++
          py (" on the built-in Custom Scripts, none of which the plugin separates, so it " ++
            "was left withdrawn.")] }
    else
      let state := if (mapActions entry).2 = [] then state else
        { state with
          warnings := state.warnings ++ [py "Permission \"" ++ entry.name ++
            py "\" granted " ++ unmappableText entry ++
            py (" on the built-in Custom Scripts, which the plugin does not separate, so that " ++
              "grant was not preserved.")] }
      if entry.otherObjectTypes ≠ [] then
        let state := splitPermission nameLength a state entry permission
        { state with counts := { state.counts with split := state.counts.split + 1 } }
      else
        { state with
          permissions := state.permissions.modify entry.pk (swapPermission entry)
          counts := { state.counts with swapped := state.counts.swapped + 1 } }

/-- `repoint_permissions(run)`, which can die before any permission or before the step is
recorded. The counts and warnings are its own. -/
def attemptPermissions (nameLength : ℕ) (journal : List PermissionEntry) (state : PermissionState)
    (a : PermissionAttempt) : PermissionState :=
  if state.stepDone then state
  else
    let state := (journal.take a.reached).foldl (repointPermission nameLength a)
      { state with counts := ⟨0, 0, 0, 0⟩, warnings := [] }
    { state with stepDone := a.completes && decide (journal.length ≤ a.reached) }

/-- The state before the first attempt. -/
def PermissionState.initial (permissions : Table ObjectPermission) : PermissionState :=
  ⟨permissions, [], false, ⟨0, 0, 0, 0⟩, []⟩

/-- What a run of attempts leaves. -/
def permissionRuns (nameLength : ℕ) (journal : List PermissionEntry)
    (live : Table ObjectPermission) (attempts : List PermissionAttempt) : PermissionState :=
  attempts.foldl (attemptPermissions nameLength journal) (PermissionState.initial live)

/-! ## What one permission does -/

section Step

variable {nameLength : ℕ} {a : PermissionAttempt} {state state' : PermissionState}
  {entry other : PermissionEntry} {live : Table ObjectPermission} {journal : List PermissionEntry}

/-- A captured permission that the pass moves. -/
def Movable (entry : PermissionEntry) : Prop :=
  entry.constraints.truthy = false ∧ (mapActions entry).1 ≠ []

/-- All that the body of the loop can do to the rows and the journal. -/
theorem repointPermission_cases (nameLength : ℕ) (a : PermissionAttempt) (state : PermissionState)
    (entry : PermissionEntry) :
    ((repointPermission nameLength a state entry).permissions = state.permissions ∧
      (repointPermission nameLength a state entry).splitPermissions = state.splitPermissions ∧
      ∀ permission, state.permissions.row entry.pk = some permission → Movable entry →
        entry.otherObjectTypes ≠ [] ∧ entry.pk ∈ state.splitPermissions.map Prod.fst) ∨
    (∃ permission, state.permissions.row entry.pk = some permission ∧ Movable entry ∧
      entry.otherObjectTypes = [] ∧
      (repointPermission nameLength a state entry).permissions =
        state.permissions.modify entry.pk (swapPermission entry) ∧
      (repointPermission nameLength a state entry).splitPermissions = state.splitPermissions) ∨
    (∃ permission, state.permissions.row entry.pk = some permission ∧ Movable entry ∧
      entry.otherObjectTypes ≠ [] ∧ entry.pk ∉ state.splitPermissions.map Prod.fst ∧
      (repointPermission nameLength a state entry).permissions =
        (state.permissions.modify entry.pk (stripPermission entry)).insert
          (siblingPermission nameLength a entry permission) ∧
      (repointPermission nameLength a state entry).splitPermissions =
        state.splitPermissions ++ [(entry.pk, state.permissions.next)]) := by
  unfold repointPermission
  cases hrow : state.permissions.row entry.pk with
  | none =>
    refine .inl ⟨rfl, rfl, ?_⟩
    intro permission hsome
    cases hsome
  | some permission =>
    by_cases hconstrained : entry.constraints.truthy = true
    · simp only [if_pos hconstrained]
      refine .inl ⟨trivial, trivial, ?_⟩
      intro _ _ hmovable
      rw [hmovable.1] at hconstrained
      cases hconstrained
    · simp only [if_neg hconstrained]
      by_cases hnothing : (mapActions entry).1 = []
      · simp only [if_pos hnothing]
        exact .inl ⟨trivial, trivial, fun _ _ hmovable => absurd hnothing hmovable.2⟩
      · have hmovable : Movable entry := ⟨Bool.eq_false_iff.mpr hconstrained, hnothing⟩
        -- the warning on what is not preserved touches neither rows nor journal
        have hwarned : ∀ warned : PermissionState, warned.permissions = state.permissions →
            warned.splitPermissions = state.splitPermissions →
            (splitPermission nameLength a warned entry permission).permissions =
              (splitPermission nameLength a state entry permission).permissions ∧
            (splitPermission nameLength a warned entry permission).splitPermissions =
              (splitPermission nameLength a state entry permission).splitPermissions := by
          intro warned hpermissions hsplit
          unfold splitPermission
          rw [hpermissions, hsplit]
          split_ifs
          · exact ⟨hpermissions, hsplit⟩
          · exact ⟨rfl, rfl⟩
        simp only [if_neg hnothing]
        by_cases hother : entry.otherObjectTypes = []
        · rw [if_neg (not_not.mpr hother)]
          refine .inr (.inl ⟨permission, rfl, hmovable, hother, ?_, ?_⟩) <;> split_ifs <;> rfl
        · rw [if_pos hother]
          have hsame := hwarned (if (mapActions entry).2 = [] then state else
            { state with
              warnings := state.warnings ++ [py "Permission \"" ++ entry.name ++
                py "\" granted " ++ unmappableText entry ++
                py (" on the built-in Custom Scripts, which the plugin does not separate, so " ++
                  "that grant was not preserved.")] })
            (by split_ifs <;> rfl) (by split_ifs <;> rfl)
          by_cases hrecorded : entry.pk ∈ state.splitPermissions.map Prod.fst
          · have hskip : splitPermission nameLength a state entry permission = state :=
              if_pos hrecorded
            rw [hskip] at hsame
            exact .inl ⟨hsame.1, hsame.2, fun _ _ _ => ⟨hother, hrecorded⟩⟩
          · refine .inr (.inr ⟨permission, rfl, hmovable, hother, hrecorded, ?_, ?_⟩)
            · refine hsame.1.trans ?_
              rw [splitPermission, if_neg hrecorded]
            · refine hsame.2.trans ?_
              rw [splitPermission, if_neg hrecorded]
              rfl

/-! ## Where a permission stands -/

/-- A captured permission that has moved: swapped in place, or split with a sibling. -/
inductive Moved (nameLength : ℕ) (live : Table ObjectPermission) (state : PermissionState)
    (entry : PermissionEntry) : Prop
  | swapped {permission : ObjectPermission} (row : live.row entry.pk = some permission)
      (movable : Movable entry) (whole : entry.otherObjectTypes = [])
      (after : state.permissions.row entry.pk = some (swapPermission entry permission))
      (alone : entry.pk ∉ state.splitPermissions.map Prod.fst)
  | split {permission : ObjectPermission} {a : PermissionAttempt} {sibling : Id}
      (row : live.row entry.pk = some permission)
      (movable : Movable entry) (mixed : entry.otherObjectTypes ≠ [])
      (after : state.permissions.row entry.pk = some (stripPermission entry permission))
      (recorded : (entry.pk, sibling) ∈ state.splitPermissions)
      (created : state.permissions.row sibling =
        some (siblingPermission nameLength a entry permission))

/-- A captured permission that no attempt has written. -/
structure Untouched (live : Table ObjectPermission) (state : PermissionState)
    (entry : PermissionEntry) : Prop where
  row : state.permissions.row entry.pk = live.row entry.pk
  alone : entry.pk ∉ state.splitPermissions.map Prod.fst

/-- What holds between any two permissions of a run: each captured permission is as the fence
left it or has moved, and every row that was added is the sibling of one of them. -/
structure Repointing (nameLength : ℕ) (live : Table ObjectPermission)
    (journal : List PermissionEntry) (state : PermissionState) : Prop where
  standing : ∀ entry ∈ journal, Untouched live state entry ∨ Moved nameLength live state entry
  keys : ∀ pair ∈ state.splitPermissions, pair.1 ∈ journal.map PermissionEntry.pk
  siblings : ∀ pair ∈ state.splitPermissions,
    live.next ≤ pair.2 ∧ pair.2 < state.permissions.next
  nodup_keys : (state.splitPermissions.map Prod.fst).Nodup
  nodup_siblings : (state.splitPermissions.map Prod.snd).Nodup
  next_le : live.next ≤ state.permissions.next
  others : ∀ i < live.next, i ∉ journal.map PermissionEntry.pk →
    state.permissions.row i = live.row i
  created : ∀ i, live.next ≤ i → state.permissions.row i ≠ none →
    i ∈ state.splitPermissions.map Prod.snd

/-- What is written about one permission leaves the others where they stand. -/
structure Elsewhere (pk : Id) (live : Table ObjectPermission) (state state' : PermissionState) :
    Prop where
  row : ∀ i, i ≠ pk → i < state.permissions.next →
    state'.permissions.row i = state.permissions.row i
  recorded : ∀ pair ∈ state.splitPermissions, pair ∈ state'.splitPermissions
  keys : ∀ i, i ≠ pk → i ∉ state.splitPermissions.map Prod.fst →
    i ∉ state'.splitPermissions.map Prod.fst

theorem Untouched.elsewhere (h : Untouched live state other)
    (helse : Elsewhere entry.pk live state state') (hne : other.pk ≠ entry.pk)
    (hlt : other.pk < state.permissions.next) : Untouched live state' other :=
  ⟨(helse.row _ hne hlt).trans h.row, helse.keys _ hne h.alone⟩

theorem Moved.elsewhere (h : Moved nameLength live state other)
    (helse : Elsewhere entry.pk live state state') (hne : other.pk ≠ entry.pk)
    (hentry : entry.pk < live.next) (hlt : other.pk < state.permissions.next)
    (hsiblings : ∀ pair ∈ state.splitPermissions,
      live.next ≤ pair.2 ∧ pair.2 < state.permissions.next) :
    Moved nameLength live state' other := by
  cases h with
  | swapped row movable whole after alone =>
    exact .swapped row movable whole ((helse.row _ hne hlt).trans after) (helse.keys _ hne alone)
  | split row movable mixed after recorded created =>
    obtain ⟨hge, hbelow⟩ := hsiblings _ recorded
    have hother : (_ : Id) ≠ entry.pk := Nat.ne_of_gt (Nat.lt_of_lt_of_le hentry hge)
    exact .split row movable mixed ((helse.row _ hne hlt).trans after)
      (helse.recorded _ recorded) ((helse.row _ hother hbelow).trans created)

/-- Writing one permission leaves the others where they stand, the moved ones moved. -/
theorem elsewhere_repointPermission (nameLength : ℕ) (a : PermissionAttempt)
    (live : Table ObjectPermission) (state : PermissionState) (entry : PermissionEntry) :
    Elsewhere entry.pk live state (repointPermission nameLength a state entry) := by
  rcases repointPermission_cases nameLength a state entry with ⟨hrows, hsplit, -⟩ |
    ⟨_, -, -, -, hrows, hsplit⟩ | ⟨_, -, -, -, -, hrows, hsplit⟩
  · refine ⟨fun i _ _ => ?_, fun pair hpair => ?_, fun i _ hi => ?_⟩
    · rw [hrows]
    · rwa [hsplit]
    · rwa [hsplit]
  · refine ⟨fun i hi _ => ?_, fun pair hpair => ?_, fun i _ hi => ?_⟩
    · rw [hrows, Table.row_modify_of_ne hi]
    · rwa [hsplit]
    · rwa [hsplit]
  · refine ⟨fun i hi hlt => ?_, fun pair hpair => ?_, fun i hne hi => ?_⟩
    · rw [hrows, Table.row_insert_of_lt (by simpa using hlt), Table.row_modify_of_ne hi]
    · rw [hsplit]
      exact List.mem_append_left _ hpair
    · simp [hsplit, hne] at hi ⊢
      exact hi

/-- What one permission becomes. -/
theorem standing_repointPermission (hstands : Untouched live state entry ∨
      Moved nameLength live state entry) (hlt : entry.pk < state.permissions.next) :
    Untouched live (repointPermission nameLength a state entry) entry ∧
        (live.row entry.pk = none ∨ ¬ Movable entry) ∨
      Moved nameLength live (repointPermission nameLength a state entry) entry := by
  rcases repointPermission_cases nameLength a state entry with ⟨hrows, hsplit, hskip⟩ |
    ⟨permission, hrow, hmovable, hwhole, hrows, hsplit⟩ |
    ⟨permission, hrow, hmovable, hmixed, hnew, hrows, hsplit⟩
  · -- nothing is written
    rcases hstands with huntouched | hmoved
    · refine .inl ⟨⟨by rw [hrows, huntouched.row], by rw [hsplit]; exact huntouched.alone⟩, ?_⟩
      cases hlive : live.row entry.pk with
      | none => exact .inl rfl
      | some permission =>
        refine .inr fun hmovable => ?_
        exact huntouched.alone (hskip permission (huntouched.row.trans hlive) hmovable).2
    · right
      cases hmoved with
      | swapped row movable whole after alone =>
        exact .swapped row movable whole (by rw [hrows, after]) (by rwa [hsplit])
      | split row movable mixed after recorded created =>
        exact .split row movable mixed (by rw [hrows, after]) (by rwa [hsplit])
          (by rw [hrows, created])
  · right
    rcases hstands with huntouched | hmoved
    · refine .swapped (huntouched.row.symm.trans hrow) hmovable hwhole ?_ ?_
      · rw [hrows, Table.row_modify_self, hrow]
        rfl
      · rw [hsplit]
        exact huntouched.alone
    · cases hmoved with
      | swapped row movable whole after alone =>
        -- a repeated swap writes what the first one wrote
        refine .swapped row hmovable hwhole ?_ (by rwa [hsplit])
        rw [hrows, Table.row_modify_self, after]
        rfl
      | split row movable mixed after recorded created => exact absurd hwhole mixed
  · right
    -- the journal has no split of it, so it has not moved before
    have huntouched : Untouched live state entry := by
      rcases hstands with huntouched | hmoved
      · exact huntouched
      · cases hmoved with
        | swapped row movable whole after alone => exact absurd whole hmixed
        | split row movable mixed after recorded created =>
          exact absurd (List.mem_map_of_mem recorded) hnew
    refine .split (a := a) (huntouched.row.symm.trans hrow) hmovable hmixed ?_
      (hsplit ▸ List.mem_append_right _ List.mem_cons_self) ?_
    · rw [hrows, Table.row_insert_of_lt (by simpa using hlt), Table.row_modify_self, hrow]
      rfl
    · rw [hrows]
      exact Table.row_insert_next

/-- **The body of the loop** keeps what holds between two permissions. -/
theorem Repointing.step (h : Repointing nameLength live journal state) (hmem : entry ∈ journal)
    (hnodup : (journal.map PermissionEntry.pk).Nodup)
    (hbelow : ∀ entry ∈ journal, entry.pk < live.next) :
    Repointing nameLength live journal (repointPermission nameLength a state entry) := by
  have hnext := h.next_le
  have hpk := hbelow entry hmem
  have helse := elsewhere_repointPermission nameLength a live state entry
  have hstanding : ∀ other ∈ journal,
      Untouched live (repointPermission nameLength a state entry) other ∨
        Moved nameLength live (repointPermission nameLength a state entry) other := by
    intro other hother
    have hlt : other.pk < state.permissions.next := Nat.lt_of_lt_of_le (hbelow _ hother) hnext
    by_cases hsame : other.pk = entry.pk
    · obtain rfl := List.inj_on_of_nodup_map hnodup hother hmem hsame
      exact (standing_repointPermission (h.standing _ hother) hlt).imp_left And.left
    · rcases h.standing other hother with huntouched | hmoved
      · exact .inl (huntouched.elsewhere helse hsame hlt)
      · exact .inr (hmoved.elsewhere helse hsame hpk hlt h.siblings)
  have hothers : ∀ i < live.next, i ∉ journal.map PermissionEntry.pk →
      (repointPermission nameLength a state entry).permissions.row i = live.row i := by
    intro i hi hnot
    rw [helse.row i (by rintro rfl; exact hnot (List.mem_map_of_mem hmem))
      (Nat.lt_of_lt_of_le hi hnext), h.others i hi hnot]
  rcases repointPermission_cases nameLength a state entry with ⟨hrows, hsplit, -⟩ |
    ⟨_, -, -, -, hrows, hsplit⟩ | ⟨permission, -, -, -, hnew, hrows, hsplit⟩
  · refine ⟨hstanding, ?_, ?_, ?_, ?_, ?_, hothers, ?_⟩
    · simpa only [hsplit] using h.keys
    · simpa only [hsplit, hrows] using h.siblings
    · simpa only [hsplit] using h.nodup_keys
    · simpa only [hsplit] using h.nodup_siblings
    · simpa only [hrows] using h.next_le
    · simpa only [hsplit, hrows] using h.created
  · refine ⟨hstanding, ?_, ?_, ?_, ?_, ?_, hothers, ?_⟩
    · simpa only [hsplit] using h.keys
    · simpa only [hsplit, hrows, Table.next_modify] using h.siblings
    · simpa only [hsplit] using h.nodup_keys
    · simpa only [hsplit] using h.nodup_siblings
    · simpa only [hrows, Table.next_modify] using h.next_le
    · intro i hi hsome
      rw [hsplit]
      rw [hrows, Table.row_modify_of_ne (Nat.ne_of_gt (Nat.lt_of_lt_of_le hpk hi))] at hsome
      exact h.created i hi hsome
  · -- the sibling is the next row, and the journal gets a key it did not have
    refine ⟨hstanding, ?_, ?_, ?_, ?_, ?_, hothers, ?_⟩
    · intro pair hpair
      rw [hsplit, List.mem_append, List.mem_singleton] at hpair
      rcases hpair with hold | rfl
      · exact h.keys pair hold
      · exact List.mem_map_of_mem hmem
    · intro pair hpair
      rw [hsplit, List.mem_append, List.mem_singleton] at hpair
      rw [hrows, Table.next_insert, Table.next_modify]
      rcases hpair with hold | rfl
      · obtain ⟨hge, hlt⟩ := h.siblings pair hold
        exact ⟨hge, Nat.lt_succ_of_lt hlt⟩
      · exact ⟨hnext, Nat.lt_succ_self _⟩
    · rw [hsplit, List.map_append, List.nodup_append]
      refine ⟨h.nodup_keys, List.nodup_singleton _, ?_⟩
      rintro key hkey _ hlast rfl
      rw [List.map_singleton, List.mem_singleton] at hlast
      rw [hlast] at hkey
      exact hnew hkey
    · rw [hsplit, List.map_append, List.nodup_append]
      refine ⟨h.nodup_siblings, List.nodup_singleton _, ?_⟩
      rintro key hkey _ hlast rfl
      rw [List.map_singleton, List.mem_singleton] at hlast
      obtain ⟨pair, hpair, rfl⟩ := List.mem_map.mp hkey
      exact Nat.ne_of_lt (h.siblings pair hpair).2 hlast
    · rw [hrows, Table.next_insert, Table.next_modify]
      omega
    · intro i hi hsome
      rw [hsplit, List.map_append, List.map_singleton, List.mem_append, List.mem_singleton]
      rw [hrows, Table.row_insert] at hsome
      split_ifs at hsome with hlast
      · exact .inr hlast
      · rw [Table.row_modify_of_ne (Nat.ne_of_gt (Nat.lt_of_lt_of_le hpk hi))] at hsome
        exact .inl (h.created i hi hsome)

/-- A moved permission stays moved. -/
theorem Moved.step (hmoved : Moved nameLength live state other)
    (h : Repointing nameLength live journal state) (hmem : entry ∈ journal)
    (hother : other ∈ journal) (hnodup : (journal.map PermissionEntry.pk).Nodup)
    (hbelow : ∀ entry ∈ journal, entry.pk < live.next) :
    Moved nameLength live (repointPermission nameLength a state entry) other := by
  have hlt : other.pk < state.permissions.next := Nat.lt_of_lt_of_le (hbelow _ hother) h.next_le
  by_cases hsame : other.pk = entry.pk
  · obtain rfl := List.inj_on_of_nodup_map hnodup hother hmem hsame
    rcases standing_repointPermission (a := a) (.inr hmoved) hlt with ⟨-, hnever⟩ | hstill
    · -- it has a row and can be moved, so it is not left untouched
      exfalso
      cases hmoved with
      | swapped row movable => simp [row, movable] at hnever
      | split row movable => simp [row, movable] at hnever
    · exact hstill
  · exact hmoved.elsewhere (elsewhere_repointPermission nameLength a live state entry) hsame
      (hbelow _ hmem) hlt h.siblings

/-- Only the rows and the journal matter. -/
theorem Moved.congr (h : Moved nameLength live state entry)
    (hrows : state'.permissions = state.permissions)
    (hsplit : state'.splitPermissions = state.splitPermissions) :
    Moved nameLength live state' entry := by
  cases h with
  | swapped row movable whole after alone =>
    exact .swapped row movable whole (hrows ▸ after) (hsplit ▸ alone)
  | split row movable mixed after recorded created =>
    exact .split row movable mixed (hrows ▸ after) (hsplit ▸ recorded) (hrows ▸ created)

theorem Repointing.congr (h : Repointing nameLength live journal state)
    (hrows : state'.permissions = state.permissions)
    (hsplit : state'.splitPermissions = state.splitPermissions) :
    Repointing nameLength live journal state' where
  standing := by
    intro entry hmem
    rcases h.standing entry hmem with huntouched | hmoved
    · exact .inl ⟨by rw [hrows, huntouched.row], by rw [hsplit]; exact huntouched.alone⟩
    · exact .inr (hmoved.congr hrows hsplit)
  keys := hsplit ▸ h.keys
  siblings := by
    rw [hrows, hsplit]
    exact h.siblings
  nodup_keys := hsplit ▸ h.nodup_keys
  nodup_siblings := hsplit ▸ h.nodup_siblings
  next_le := hrows ▸ h.next_le
  others := hrows ▸ h.others
  created := by
    rw [hrows, hsplit]
    exact h.created

end Step

/-! ## Runs of the pass -/

section Runs

variable {nameLength : ℕ} {a : PermissionAttempt} {state : PermissionState}
  {entry : PermissionEntry} {live : Table ObjectPermission} {journal : List PermissionEntry}
  (hnodup : (journal.map PermissionEntry.pk).Nodup)
  (hbelow : ∀ entry ∈ journal, entry.pk < live.next)

include hnodup hbelow

/-- What the loop leaves of some of the captured permissions. -/
theorem Repointing.foldl (entries : List PermissionEntry)
    (hsub : ∀ entry ∈ entries, entry ∈ journal)
    (h : Repointing nameLength live journal state) :
    Repointing nameLength live journal (entries.foldl (repointPermission nameLength a) state) ∧
      (∀ entry ∈ journal, Moved nameLength live state entry →
        Moved nameLength live (entries.foldl (repointPermission nameLength a) state) entry) ∧
      ∀ entry ∈ entries, live.row entry.pk ≠ none → Movable entry →
        Moved nameLength live (entries.foldl (repointPermission nameLength a) state) entry := by
  induction entries generalizing state with
  | nil => exact ⟨h, fun _ _ hmoved => hmoved, fun _ hmem => absurd hmem List.not_mem_nil⟩
  | cons first rest ih =>
    have hfirst : first ∈ journal := hsub first List.mem_cons_self
    have hstep := h.step (a := a) hfirst hnodup hbelow
    obtain ⟨hrest, hstays, hreached⟩ :=
      ih (fun entry hmem => hsub entry (List.mem_cons_of_mem _ hmem)) hstep
    refine ⟨hrest, fun entry hmem hmoved => ?_, fun entry hmem hrow hmovable => ?_⟩
    · exact hstays entry hmem (hmoved.step h hfirst hmem hnodup hbelow)
    · rcases List.mem_cons.mp hmem with rfl | hin
      · apply hstays entry hfirst
        have hlt := Nat.lt_of_lt_of_le (hbelow _ hfirst) h.next_le
        rcases standing_repointPermission (a := a) (h.standing _ hfirst) hlt with
          ⟨-, hnever⟩ | hmoved
        · exact absurd hnever (not_or.mpr ⟨hrow, not_not.mpr hmovable⟩)
        · exact hmoved
      · exact hreached entry hin hrow hmovable

/-- What holds between two attempts: once the step is recorded, everything has moved. -/
structure BetweenAttempts (nameLength : ℕ) (live : Table ObjectPermission)
    (journal : List PermissionEntry) (state : PermissionState) : Prop
    extends Repointing nameLength live journal state where
  finished : state.stepDone = true → ∀ entry ∈ journal, live.row entry.pk ≠ none →
    Movable entry → Moved nameLength live state entry

/-- **An attempt**, wherever it ends. -/
theorem BetweenAttempts.attempt (h : BetweenAttempts nameLength live journal state) :
    BetweenAttempts nameLength live journal (attemptPermissions nameLength journal state a) ∧
      (∀ entry ∈ journal, Moved nameLength live state entry →
        Moved nameLength live (attemptPermissions nameLength journal state a) entry) ∧
      ∀ entry ∈ journal.take a.reached, live.row entry.pk ≠ none → Movable entry →
        Moved nameLength live (attemptPermissions nameLength journal state a) entry := by
  unfold attemptPermissions
  by_cases hdone : state.stepDone = true
  · simp only [if_pos hdone]
    exact ⟨h, fun _ _ hmoved => hmoved,
      fun entry hmem => h.finished hdone entry (List.mem_of_mem_take hmem)⟩
  · simp only [if_neg hdone]
    have hstart : Repointing nameLength live journal
        { state with counts := ⟨0, 0, 0, 0⟩, warnings := [] } := h.toRepointing.congr rfl rfl
    obtain ⟨hloop, hstays, hreached⟩ := hstart.foldl (a := a) hnodup hbelow
      (journal.take a.reached) fun _ => List.mem_of_mem_take
    refine ⟨⟨hloop.congr rfl rfl, fun hrecorded entry hmem hrow hmovable => ?_⟩,
      fun entry hmem hmoved => ?_, fun entry hmem hrow hmovable => ?_⟩
    · -- the step is recorded only by an attempt that got through the whole journal
      have hall : journal.length ≤ a.reached := by
        simp only [Bool.and_eq_true, decide_eq_true_eq] at hrecorded
        exact hrecorded.2
      rw [← List.take_of_length_le hall] at hmem
      exact (hreached entry hmem hrow hmovable).congr rfl rfl
    · exact (hstays entry hmem (hmoved.congr rfl rfl)).congr rfl rfl
    · exact (hreached entry hmem hrow hmovable).congr rfl rfl

/-- **Attempts in a row.** -/
theorem BetweenAttempts.run (attempts : List PermissionAttempt)
    (h : BetweenAttempts nameLength live journal state) :
    BetweenAttempts nameLength live journal
        (attempts.foldl (attemptPermissions nameLength journal) state) ∧
      (∀ entry ∈ journal, Moved nameLength live state entry → Moved nameLength live
        (attempts.foldl (attemptPermissions nameLength journal) state) entry) ∧
      ∀ a ∈ attempts, ∀ entry ∈ journal.take a.reached, live.row entry.pk ≠ none →
        Movable entry → Moved nameLength live
          (attempts.foldl (attemptPermissions nameLength journal) state) entry := by
  induction attempts generalizing state with
  | nil => exact ⟨h, fun _ _ hmoved => hmoved, fun _ hmem => absurd hmem List.not_mem_nil⟩
  | cons first rest ih =>
    obtain ⟨hfirst, hstays, hreached⟩ := h.attempt (a := first) hnodup hbelow
    obtain ⟨hrest, hstill, hlater⟩ := ih hfirst
    refine ⟨hrest, fun entry hmem hmoved => hstill entry hmem (hstays entry hmem hmoved),
      fun a hmem entry hin hrow hmovable => ?_⟩
    rcases List.mem_cons.mp hmem with rfl | hmem
    · exact hstill entry (List.mem_of_mem_take hin) (hreached entry hin hrow hmovable)
    · exact hlater a hmem entry hin hrow hmovable

/-- Where every captured permission stands after a run. -/
theorem standing_run (nameLength : ℕ) (attempts : List PermissionAttempt) :
    Repointing nameLength live journal (permissionRuns nameLength journal live attempts) ∧
      ∀ a ∈ attempts, ∀ entry ∈ journal.take a.reached, live.row entry.pk ≠ none →
        Movable entry → Moved nameLength live
          (permissionRuns nameLength journal live attempts) entry := by
  have hinitial : BetweenAttempts nameLength live journal (PermissionState.initial live) := by
    refine ⟨⟨fun entry _ => .inl ⟨rfl, List.not_mem_nil⟩, ?_, ?_, List.nodup_nil, List.nodup_nil,
      Nat.le_refl _, fun _ _ _ => rfl, ?_⟩, fun hdone => ?_⟩
    · exact fun pair hpair => absurd hpair List.not_mem_nil
    · exact fun pair hpair => absurd hpair List.not_mem_nil
    · intro i hi hrow
      exact absurd (live.fresh i hi) hrow
    · cases hdone
  obtain ⟨hrun, -, hreached⟩ := hinitial.run hnodup hbelow attempts
  exact ⟨hrun.toRepointing, hreached⟩

end Runs

/-! ## What is granted -/

section Granted

/-- The type map, the identity outside the built-in feature. -/
def movedType (label : PyStr) : PyStr := (typeMap.lookup label).getD label

/-- The plugin's object types. -/
def pluginTypes : List PyStr := typeMap.map Prod.snd

/-- An action on a type is named by a captured permission or by its sibling. -/
def Grants (state : PermissionState) (entry : PermissionEntry) (label action : PyStr) : Prop :=
  (∃ permission, state.permissions.row entry.pk = some permission ∧
    label ∈ permission.objectTypes ∧ action ∈ permission.actions) ∨
  ∃ sibling permission, (entry.pk, sibling) ∈ state.splitPermissions ∧
    state.permissions.row sibling = some permission ∧
      label ∈ permission.objectTypes ∧ action ∈ permission.actions

variable {nameLength : ℕ} {state : PermissionState} {entry : PermissionEntry} {pk : Id}
  {live : Table ObjectPermission} {journal : List PermissionEntry} {permission : ObjectPermission}
  {label action : PyStr}

theorem lookup_typeMap (hlegacy : label ∈ legacyTypes) :
    typeMap.lookup label = some (movedType label) := by
  simp only [legacyTypes, typeMap, List.map_cons, List.map_nil, List.mem_cons, List.not_mem_nil,
    or_false] at hlegacy
  rcases hlegacy with rfl | rfl <;> decide

theorem movedType_of_notMem (hlegacy : label ∉ legacyTypes) : movedType label = label := by
  have hnone : typeMap.lookup label = none := by
    simp only [legacyTypes, typeMap, List.map_cons, List.map_nil, List.mem_cons,
      List.not_mem_nil, or_false, not_or] at hlegacy
    simp [typeMap, List.lookup_cons, beq_eq_false_iff_ne.mpr hlegacy.1,
      beq_eq_false_iff_ne.mpr hlegacy.2]
  simp [movedType, hnone]

theorem movedType_mem_pluginTypes (hlegacy : label ∈ legacyTypes) :
    movedType label ∈ pluginTypes := by
  simp only [legacyTypes, typeMap, List.map_cons, List.map_nil, List.mem_cons, List.not_mem_nil,
    or_false] at hlegacy
  rcases hlegacy with rfl | rfl <;> decide

/-- The plugin's types are none of the built-in feature. -/
theorem notMem_legacyTypes_of_plugin (hplugin : label ∈ pluginTypes) : label ∉ legacyTypes := by
  simp only [pluginTypes, typeMap, List.map_cons, List.map_nil, List.mem_cons, List.not_mem_nil,
    or_false] at hplugin
  rcases hplugin with rfl | rfl <;> decide

/-- An action has a counterpart on a built-in type only. -/
theorem mem_legacyTypes_of_supported (h : action ∈ supportedActions label) :
    label ∈ legacyTypes := by
  by_contra hlegacy
  have hnone : counterparts.lookup label = none := by
    simp only [legacyTypes, typeMap, List.map_cons, List.map_nil, List.mem_cons,
      List.not_mem_nil, or_false, not_or] at hlegacy
    simp [counterparts, List.lookup_cons, beq_eq_false_iff_ne.mpr hlegacy.1,
      beq_eq_false_iff_ne.mpr hlegacy.2]
  simp [supportedActions, hnone] at h

theorem mem_sortedTexts {items : List PyStr} : label ∈ sortedTexts items ↔ label ∈ items :=
  List.mem_insertionSort _

theorem mem_legacy_capture : label ∈ (capturePermission pk permission).legacyObjectTypes ↔
    label ∈ permission.objectTypes ∧ label ∈ legacyTypes := by
  simp [capturePermission, mem_sortedTexts]

theorem mem_other_capture : label ∈ (capturePermission pk permission).otherObjectTypes ↔
    label ∈ permission.objectTypes ∧ label ∉ legacyTypes := by
  simp [capturePermission, mem_sortedTexts]

theorem mem_targetTypes_capture : label ∈ targetTypes (capturePermission pk permission) ↔
    ∃ legacy ∈ permission.objectTypes, legacy ∈ legacyTypes ∧ movedType legacy = label := by
  simp only [targetTypes, List.mem_filterMap, mem_legacy_capture]
  constructor
  · rintro ⟨legacy, ⟨hmem, hlegacy⟩, hlookup⟩
    rw [lookup_typeMap hlegacy, Option.some.injEq] at hlookup
    exact ⟨legacy, hmem, hlegacy, hlookup⟩
  · rintro ⟨legacy, hmem, hlegacy, rfl⟩
    exact ⟨legacy, ⟨hmem, hlegacy⟩, lookup_typeMap hlegacy⟩

theorem mem_mapActions_capture : action ∈ (mapActions (capturePermission pk permission)).1 ↔
    action ∈ permission.actions ∧
      ∃ legacy ∈ permission.objectTypes, action ∈ supportedActions legacy := by
  simp only [mapActions, List.mem_filter, decide_eq_true_eq, List.mem_flatMap, mem_legacy_capture]
  refine and_congr_right fun _ => ⟨?_, ?_⟩
  · rintro ⟨legacy, ⟨hmem, -⟩, hsupported⟩
    exact ⟨legacy, hmem, hsupported⟩
  · rintro ⟨legacy, hmem, hsupported⟩
    exact ⟨legacy, ⟨hmem, mem_legacyTypes_of_supported hsupported⟩, hsupported⟩

/-- An untouched permission grants what the fence left. -/
theorem grants_of_untouched (h : Untouched live state entry) :
    Grants state entry label action ↔ ∃ permission, live.row entry.pk = some permission ∧
      label ∈ permission.objectTypes ∧ action ∈ permission.actions := by
  rw [Grants, h.row]
  refine or_iff_left ?_
  rintro ⟨sibling, -, hrecorded, -⟩
  exact h.alone (List.mem_map_of_mem hrecorded)

/-- The sibling of a permission is one row. -/
theorem Repointing.sibling_unique (h : Repointing nameLength live journal state) {i j : Id}
    (hi : (entry.pk, i) ∈ state.splitPermissions) (hj : (entry.pk, j) ∈ state.splitPermissions) :
    i = j := by
  have hsame := List.inj_on_of_nodup_map h.nodup_keys hi hj rfl
  exact congrArg Prod.snd hsame

/-- What is granted once a permission has moved: the mapped actions on the plugin's types, and
on the types outside the feature what was captured. -/
theorem grants_of_moved (h : Repointing nameLength live journal state)
    (hmoved : Moved nameLength live state (capturePermission pk permission))
    (hlive : live.row pk = some { permission with enabled := false }) :
    Grants state (capturePermission pk permission) label action ↔
      ((∃ legacy ∈ permission.objectTypes, legacy ∈ legacyTypes ∧ movedType legacy = label) ∧
        action ∈ permission.actions ∧
          ∃ legacy ∈ permission.objectTypes, action ∈ supportedActions legacy) ∨
      label ∈ permission.objectTypes ∧ label ∉ legacyTypes ∧ action ∈ permission.actions := by
  rw [← @mem_targetTypes_capture pk permission label,
    ← @mem_mapActions_capture pk permission action]
  cases hmoved with
  | swapped row movable whole after alone =>
    -- no type outside the feature, and no sibling that grants anything
    have hpure : ¬ (label ∈ permission.objectTypes ∧ label ∉ legacyTypes) := fun hother => by
      have hmem := (@mem_other_capture pk permission label).mpr hother
      rw [whole] at hmem
      exact List.not_mem_nil hmem
    have hnone : ¬ ∃ sibling found, ((capturePermission pk permission).pk, sibling) ∈
        state.splitPermissions ∧ state.permissions.row sibling = some found ∧
          label ∈ found.objectTypes ∧ action ∈ found.actions := by
      rintro ⟨sibling, -, hrecorded, -⟩
      exact alone (List.mem_map_of_mem hrecorded)
    rw [Grants, or_iff_left hnone, after]
    simp only [Option.some.injEq, exists_eq_left', swapPermission]
    tauto
  | @split found a sibling row movable mixed after recorded created =>
    have hfound : found = { permission with enabled := false } :=
      Option.some.inj (row.symm.trans hlive)
    -- what the siblings grant is what the recorded one grants
    have hsibling : (∃ j other, ((capturePermission pk permission).pk, j) ∈
        state.splitPermissions ∧ state.permissions.row j = some other ∧
          label ∈ other.objectTypes ∧ action ∈ other.actions) ↔
        label ∈ targetTypes (capturePermission pk permission) ∧
          action ∈ (mapActions (capturePermission pk permission)).1 := by
      constructor
      · rintro ⟨j, other, hj, hrow, hlabel, haction⟩
        obtain rfl := h.sibling_unique hj recorded
        rw [created, Option.some.injEq] at hrow
        subst hrow
        exact ⟨hlabel, haction⟩
      · rintro ⟨hlabel, haction⟩
        exact ⟨sibling, _, recorded, created, hlabel, haction⟩
    rw [Grants, hsibling, after]
    subst hfound
    simp only [Option.some.injEq, exists_eq_left', stripPermission, List.mem_filter,
      decide_eq_true_eq, mem_legacy_capture]
    tauto

/-! ## No run widens access -/

/-- A journal of captured permissions, and what the fence left of their rows: each is withdrawn,
or no longer there. -/
structure LeftByFence (captured live : Table ObjectPermission) (journal : List PermissionEntry) :
    Prop where
  nodup : (journal.map PermissionEntry.pk).Nodup
  entry : ∀ entry ∈ journal, ∃ permission, captured.row entry.pk = some permission ∧
    entry = capturePermission entry.pk permission
  withdrawn : ∀ entry ∈ journal, live.row entry.pk = none ∨
    live.row entry.pk = (captured.row entry.pk).map fun permission =>
      { permission with enabled := false }
  next_le : captured.next ≤ live.next

/-- What a state says of one permission as it was captured; `handled` says that some attempt got
through it. -/
structure PermissionPreserved (live : Table ObjectPermission) (state : PermissionState)
    (pk : Id) (permission : ObjectPermission) (handled : Prop) : Prop where
  narrow : ∀ label ∈ pluginTypes, ∀ action,
    Grants state (capturePermission pk permission) label action →
      ∃ legacy ∈ permission.objectTypes, movedType legacy = label ∧ action ∈ permission.actions
  kept : handled → live.row pk ≠ none → permission.constraints.truthy = false →
    ∀ legacy ∈ permission.objectTypes, legacy ∈ legacyTypes → ∀ action ∈ permission.actions,
      (∃ other ∈ permission.objectTypes, action ∈ supportedActions other) →
        Grants state (capturePermission pk permission) (movedType legacy) action
  holders : ∀ sibling row, (pk, sibling) ∈ state.splitPermissions →
    state.permissions.row sibling = some row →
      row.users ⊆ permission.users ∧ row.groups ⊆ permission.groups
  enabled : ∀ i row, (i = pk ∨ (pk, i) ∈ state.splitPermissions) →
    state.permissions.row i = some row → row.enabled = true → permission.enabled = true
  single : ∀ i j, (pk, i) ∈ state.splitPermissions → (pk, j) ∈ state.splitPermissions → i = j
  unrelated : live.row pk ≠ none → ∀ label, label ∉ legacyTypes →
    (label ∈ permission.objectTypes ∨ label ∉ pluginTypes) → ∀ action,
      (Grants state (capturePermission pk permission) label action ↔
        label ∈ permission.objectTypes ∧ action ∈ permission.actions)
  unwritten : (permission.constraints.truthy = true ∨ ∀ action ∈ permission.actions,
      ∀ label ∈ permission.objectTypes, action ∉ supportedActions label) →
    state.permissions.row pk = live.row pk ∧ ∀ sibling, (pk, sibling) ∉ state.splitPermissions

theorem mem_liveKeys {existing : Id → Bool} {keys : List Id} {i : Id}
    (h : i ∈ (liveKeys existing keys).1) : i ∈ keys := by
  simp only [liveKeys, List.mem_insertionSort, List.mem_dedup, List.mem_filter] at h
  exact h.1

/-- The captured permission that an attempt can move. -/
theorem movable_capture : Movable (capturePermission pk permission) ↔
    permission.constraints.truthy = false ∧ ∃ action ∈ permission.actions,
      ∃ label ∈ permission.objectTypes, action ∈ supportedActions label := by
  refine and_congr Iff.rfl ?_
  rw [Ne, List.eq_nil_iff_forall_not_mem]
  simp [mem_mapActions_capture]

/-- A permission that has not been written. -/
theorem Untouched.preserved {handled : Prop}
    (h : Untouched live state (capturePermission pk permission))
    (hlive : live.row pk = none ∨ live.row pk = some { permission with enabled := false })
    (hhandled : handled → live.row pk ≠ none → ¬ Movable (capturePermission pk permission)) :
    PermissionPreserved live state pk permission handled := by
  have hgrants : live.row pk ≠ none → ∀ label action,
      (Grants state (capturePermission pk permission) label action ↔
        label ∈ permission.objectTypes ∧ action ∈ permission.actions) := by
    intro hrow label action
    rw [grants_of_untouched h, show (capturePermission pk permission).pk = pk from rfl,
      hlive.resolve_left hrow]
    simp
  have hnone : ∀ sibling, (pk, sibling) ∉ state.splitPermissions := fun sibling hrecorded =>
    h.alone (List.mem_map_of_mem hrecorded)
  refine ⟨fun label hplugin action hgranted => ?_, fun hreached hrow htruthy legacy hmem _ action
    haction hsupported => ?_, fun sibling _ hrecorded => absurd hrecorded (hnone sibling),
    fun i row hi hsome henabled => ?_, fun i _ hrecorded => absurd hrecorded (hnone i),
    fun hrow label _ _ action => hgrants hrow label action, fun _ => ⟨h.row, hnone⟩⟩
  · have hrow : live.row pk ≠ none := by
      obtain ⟨found, hfound, -⟩ := (grants_of_untouched h).mp hgranted
      rw [show live.row pk = some found from hfound]
      exact Option.some_ne_none found
    obtain ⟨hmem, haction⟩ := (hgrants hrow label action).mp hgranted
    exact ⟨label, hmem, movedType_of_notMem (notMem_legacyTypes_of_plugin hplugin), haction⟩
  · exact absurd (movable_capture.mpr ⟨htruthy, action, haction, hsupported⟩)
      (hhandled hreached hrow)
  · -- what the fence left is withdrawn
    obtain rfl := hi.resolve_right (hnone i)
    rw [show state.permissions.row i = live.row i from h.row] at hsome
    rcases hlive with hgone | hlive
    · rw [hgone] at hsome
      cases hsome
    · rw [hlive, Option.some.injEq] at hsome
      subst hsome
      cases henabled

/-- A permission that has moved. -/
theorem Moved.preserved {handled : Prop} (h : Repointing nameLength live journal state)
    (hmoved : Moved nameLength live state (capturePermission pk permission))
    (hlive : live.row pk = some { permission with enabled := false }) :
    PermissionPreserved live state pk permission handled := by
  have hgrants := fun label action =>
    @grants_of_moved _ _ _ _ _ _ label action h hmoved hlive
  have hmovable : Movable (capturePermission pk permission) := by
    cases hmoved with
    | swapped row movable => exact movable
    | split row movable => exact movable
  refine ⟨fun label hplugin action hgranted => ?_, fun _ _ _ legacy hmem hlegacy action haction
    hsupported => (hgrants _ _).mpr (.inl ⟨⟨legacy, hmem, hlegacy, rfl⟩, haction, hsupported⟩),
    fun sibling row hrecorded hsome => ?_, fun i row hi hsome henabled => ?_,
    fun i j hi hj =>
      @Repointing.sibling_unique _ _ (capturePermission pk permission) _ _ h _ _ hi hj,
    fun _ label hlegacy houtside action => ?_, fun hnever => ?_⟩
  · rcases (hgrants label action).mp hgranted with
      ⟨⟨legacy, hmem, -, hlabel⟩, haction, -⟩ | ⟨hmem, hlegacy, haction⟩
    · exact ⟨legacy, hmem, hlabel, haction⟩
    · exact ⟨label, hmem, movedType_of_notMem hlegacy, haction⟩
  · cases hmoved with
    | swapped _ _ _ _ alone => exact absurd (List.mem_map_of_mem hrecorded) alone
    | split _ _ _ _ recorded created =>
      obtain rfl := @Repointing.sibling_unique _ _ (capturePermission pk permission) _ _ h _ _
        hrecorded recorded
      rw [created, Option.some.injEq] at hsome
      subst hsome
      exact ⟨fun user hmem => (List.mem_insertionSort _).mp (mem_liveKeys hmem),
        fun group hmem => (List.mem_insertionSort _).mp (mem_liveKeys hmem)⟩
  · -- the row and its sibling are in service in the state that was captured
    have hentry : (capturePermission pk permission).enabled = permission.enabled := rfl
    cases hmoved with
    | swapped _ _ _ after alone =>
      rcases hi with rfl | hrecorded
      · rw [show state.permissions.row i = _ from after, Option.some.injEq] at hsome
        subst hsome
        exact henabled
      · exact absurd (List.mem_map_of_mem hrecorded) alone
    | split _ _ _ after recorded created =>
      rcases hi with rfl | hrecorded
      · rw [show state.permissions.row i = _ from after, Option.some.injEq] at hsome
        subst hsome
        exact henabled
      · obtain rfl := @Repointing.sibling_unique _ _ (capturePermission pk permission) _ _ h _ _
          hrecorded recorded
        rw [created, Option.some.injEq] at hsome
        subst hsome
        exact henabled
  · -- a label that a captured type moved to is a label of the plugin
    rw [hgrants]
    constructor
    · rintro (⟨⟨legacy, hmem, hin, rfl⟩, haction, -⟩ | ⟨hmem, -, haction⟩)
      · exact ⟨houtside.resolve_right (not_not.mpr (movedType_mem_pluginTypes hin)), haction⟩
      · exact ⟨hmem, haction⟩
    · rintro ⟨hmem, haction⟩
      exact .inr ⟨hmem, hlegacy, haction⟩
  · -- a permission that is never written could not have moved
    exfalso
    obtain ⟨htruthy, action, haction, label, hlabel, hsupported⟩ := movable_capture.mp hmovable
    rcases hnever with hconstrained | hnever
    · rw [htruthy] at hconstrained
      cases hconstrained
    · exact hnever action haction label hlabel hsupported

/-- **No run of the pass widens or narrows access**: it preserves every captured permission, adds
rows as siblings of captured permissions only, and writes no other row. -/
theorem repointed_permissions {captured : Table ObjectPermission}
    (h : LeftByFence captured live journal) (nameLength : ℕ)
    (attempts : List PermissionAttempt) :
    (∀ entry ∈ journal, ∃ permission, captured.row entry.pk = some permission ∧
      entry = capturePermission entry.pk permission ∧
      PermissionPreserved live (permissionRuns nameLength journal live attempts) entry.pk
        permission (∃ a ∈ attempts, entry ∈ journal.take a.reached)) ∧
    (∀ i, live.next ≤ i →
      (permissionRuns nameLength journal live attempts).permissions.row i ≠ none →
      ∃! entry, entry ∈ journal ∧
        (entry.pk, i) ∈ (permissionRuns nameLength journal live attempts).splitPermissions) ∧
    ∀ i < live.next, i ∉ journal.map PermissionEntry.pk →
      (permissionRuns nameLength journal live attempts).permissions.row i = live.row i := by
  have hbelow : ∀ entry ∈ journal, entry.pk < live.next := by
    intro entry hmem
    obtain ⟨permission, hrow, -⟩ := h.entry entry hmem
    exact Nat.lt_of_lt_of_le (Table.lt_next_of_row hrow) h.next_le
  obtain ⟨hrun, hreached⟩ := standing_run h.nodup hbelow nameLength attempts
  refine ⟨fun entry hmem => ?_, fun i hi hrow => ?_, hrun.others⟩
  · obtain ⟨permission, hrow, hentry⟩ := h.entry entry hmem
    refine ⟨permission, hrow, hentry, ?_⟩
    have hlive := h.withdrawn entry hmem
    rw [hrow, Option.map_some] at hlive
    have hstanding := hrun.standing entry hmem
    rw [hentry] at hstanding
    by_cases hmoved : Moved nameLength live
        (permissionRuns nameLength journal live attempts)
        (capturePermission entry.pk permission)
    · refine hmoved.preserved hrun (hlive.resolve_left ?_)
      intro hgone
      cases hmoved with
      | swapped row => exact absurd (hgone.symm.trans row) (by simp)
      | split row => exact absurd (hgone.symm.trans row) (by simp)
    · -- an attempt that got through it would have moved it
      refine (hstanding.resolve_right hmoved).preserved hlive ?_
      rintro ⟨a, ha, hin⟩ hsome hmovable
      have hdone := hreached a ha entry hin hsome (by rw [hentry]; exact hmovable)
      rw [hentry] at hdone
      exact hmoved hdone
  · -- a new row is recorded as the sibling of one captured permission
    obtain ⟨pair, hpair, hsibling⟩ := List.mem_map.mp (hrun.created i hi hrow)
    obtain ⟨entry, hmem, hkey⟩ := List.mem_map.mp (hrun.keys pair hpair)
    have hrecorded : (entry.pk, i) ∈
        (permissionRuns nameLength journal live attempts).splitPermissions := by
      rw [hkey, ← hsibling]
      exact hpair
    refine ⟨entry, ⟨hmem, hrecorded⟩, ?_⟩
    rintro other ⟨hother, hsame⟩
    have hpk := congrArg Prod.fst (List.inj_on_of_nodup_map hrun.nodup_siblings hsame hrecorded rfl)
    exact List.inj_on_of_nodup_map h.nodup hother hmem hpk

/-- A permission on the built-in scripts and on sites, split while one of its users is gone. -/
theorem repointed_permissions_of_mixed :
    let permission : ObjectPermission := ⟨py "runners", [], true,
      [py "extras.script", py "dcim.site"], [py "run", py "view"], .null, [4, 5], []⟩
    let captured := (Table.startingAt 1).insert permission
    let live := (Table.startingAt 1).insert { permission with enabled := false }
    let state := permissionRuns 100 [capturePermission 1 permission] live
      [⟨(· = 4), fun _ => true, 1, true⟩]
    captured.row 1 = some permission ∧
      Grants state (capturePermission 1 permission) (py "netbox_scripts.netboxscript")
        (py "run") := by
  intro permission captured live state
  have hleft : LeftByFence captured live [capturePermission 1 permission] := by
    refine ⟨List.nodup_singleton _, fun entry hmem => ?_, fun entry hmem => ?_, Nat.le_refl _⟩
    · rw [List.mem_singleton] at hmem
      subst hmem
      exact ⟨permission, rfl, rfl⟩
    · rw [List.mem_singleton] at hmem
      subst hmem
      exact .inr rfl
  obtain ⟨hpreserved, -⟩ := repointed_permissions hleft 100 [⟨(· = 4), fun _ => true, 1, true⟩]
  obtain ⟨found, hfound, -, hentry⟩ := hpreserved _ List.mem_cons_self
  obtain rfl : permission = found := Option.some.inj hfound
  refine ⟨rfl, ?_⟩
  have hlive : live.row 1 = some { permission with enabled := false } := rfl
  exact hentry.kept ⟨_, List.mem_cons_self, List.mem_cons_self⟩
    (fun hgone => Option.some_ne_none _ (hlive.symm.trans hgone)) rfl
    (py "extras.script") List.mem_cons_self List.mem_cons_self (py "run") List.mem_cons_self
    ⟨py "extras.script", List.mem_cons_self, by decide⟩

end Granted

end NetBoxScripts
