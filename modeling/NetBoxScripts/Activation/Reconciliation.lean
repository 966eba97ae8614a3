import NetBoxScripts.Activation.Synchronization

/-!
# Script rows in line with their records

What `synchronize_scripts` does with records that `validate_discovered_scripts` accepts: one call,
the same call again, and calls with other records between.

## Main definitions

* `Synchronized`: what became of each row
* `Reconciled`: the rows in service are those of the records, and the counts

## Main results

* `synchronizeScriptRows_synchronized`: one call, its rows and its counts
* `synchronizeScriptRows_reconciled`: one call, a second one, and others between
-/

namespace NetBoxScripts

/-! ## Accepted records -/

/-- An accepted record has what the loop looks up, under an identity that is new. -/
theorem recordedScript_of_validateRecord {index : ℕ} {record : Json}
    {identities : List ScriptIdentity} {identity : ScriptIdentity}
    (h : validateRecord index record identities = .ok identity) :
    ∃ script, recordedScript record = some script ∧ identity = script.identity ∧
      identity ∉ identities := by
  simp only [validateRecord, requiredTextKeys, List.forM_eq_forM, List.forM_cons, List.forM_nil,
    Except.bind_eq_ok_iff, requireMetadata_eq_ok, Option.isSome_iff_exists, decide_eq_true_eq,
    exists_and_left, pure, Except.pure, Except.ok.injEq, exists_const, and_true] at h
  obtain ⟨-, ⟨⟨modulePath, hmodule⟩, ⟨className, hclass⟩, -, ⟨displayName, hdisplay⟩,
    ⟨description, hdescription⟩⟩, -, -, hmetadata, -, -, -, -, -, -, hnew, rfl⟩ := h
  obtain ⟨metadata, hmetadata⟩ : ∃ metadata, record.get? (py "metadata") = some metadata := by
    cases hget : record.get? (py "metadata") with
    | none => simp [hget] at hmetadata
    | some metadata => exact ⟨metadata, rfl⟩
  rw [hmodule, hclass] at hnew ⊢
  refine ⟨⟨modulePath, className, displayName, description, metadata⟩, ?_, rfl, hnew⟩
  rw [recordedScript, hmodule, hclass, hdisplay, hdescription, hmetadata]
  rfl

theorem recordedScripts_of_validateRecords {index : ℕ} {records : List Json}
    {identities : List ScriptIdentity} (h : validateRecords index records identities = .ok ()) :
    ∃ scripts, List.Forall₂ (fun record script => recordedScript record = some script)
        records scripts ∧
      (scripts.map RecordedScript.identity).Nodup ∧
      ∀ script ∈ scripts, script.identity ∉ identities := by
  induction records generalizing index identities with
  | nil => exact ⟨[], .nil, List.nodup_nil, nofun⟩
  | cons record records ih =>
    rw [validateRecords, Except.bind_eq_ok_iff] at h
    -- an accepted record extends the identities that those after it must avoid
    obtain ⟨identity, hrecord, hrest⟩ := h
    obtain ⟨script, hscript, rfl, hnew⟩ := recordedScript_of_validateRecord hrecord
    obtain ⟨scripts, hall, hnodup, hfresh⟩ := ih hrest
    refine ⟨script :: scripts, .cons hscript hall, List.nodup_cons.mpr ⟨?_, hnodup⟩,
      List.forall_mem_cons.mpr ⟨hnew, fun other hother hmem => ?_⟩⟩
    · intro hmem
      obtain ⟨other, hother, heq⟩ := List.mem_map.mp hmem
      exact hfresh other hother (heq ▸ List.mem_cons_self)
    · exact hfresh other hother (List.mem_cons_of_mem _ hmem)

/-! ## One call as a whole -/

section Synchronize

variable {p r : Id} {T out : Table NetBoxScript} {scripts : List RecordedScript}
  {records : List Json} {result : ScriptSyncResult}

/-- **What became of each row**, and the counts. -/
structure Synchronized (p r : Id) (scripts : List RecordedScript) (T out : Table NetBoxScript)
    (result : ScriptSyncResult) : Prop where
  named : ∀ i row, T.row i = some row → ∀ script ∈ scripts, HasIdentity p script row →
    out.row i = some (row.saved (publishedValues r script))
  unnamed : ∀ i row, T.row i = some row → row.project = p → ¬ IsRecorded p scripts row →
    out.row i = some { row with isRetired := true }
  foreign : ∀ i row, T.row i = some row → row.project ≠ p → out.row i = some row
  created : ∀ i row, T.row i = none → out.row i = some row → ∃ script ∈ scripts,
    row = createdScript p r script ∧ ∀ j a, T.row j = some a → ¬ HasIdentity p script a
  created_once : ∀ i j a b, T.row i = none → T.row j = none → out.row i = some a →
    out.row j = some b → a.identity = b.identity → i = j
  complete : ∀ script ∈ scripts, (∃ i row, T.row i = some row ∧ HasIdentity p script row) ∨
    ∃ i, T.row i = none ∧ out.row i = some (createdScript p r script)
  next_eq : (∀ script ∈ scripts, ∃ i row, T.row i = some row ∧ HasIdentity p script row) →
    out.next = T.next
  published : result.published = scripts.length
  retired : ∃ ids : List Id, ids.Nodup ∧ ids.length = result.retired ∧ ∀ i, i ∈ ids ↔
    ∃ row, T.row i = some row ∧ row.project = p ∧ row.isRetired = false ∧ ¬ IsRecorded p scripts row
  written : ∃ ids : List Id, ids.Nodup ∧ ids.length = result.written ∧
    ∀ i, i ∈ ids ↔ out.row i ≠ T.row i

/-- **A call with accepted records** does not raise. -/
theorem synchronizeScriptRows_synchronized (p r : Id) (hunique : UniqueRows T)
    (hrecords : List.Forall₂ (fun record script => recordedScript record = some script)
      records scripts) (hnodup : (scripts.map RecordedScript.identity).Nodup) :
    ∃ out result, synchronizeScriptRows p r records T = some (out, result) ∧
      Synchronized p r scripts T out result := by
  obtain ⟨st, hrun, h⟩ := syncing_nil.run (r := r) (p := p) hunique hrecords hnodup
  rw [List.nil_append] at h
  -- a row that is left is still as the call found it
  have hkept : ∀ row ∈ st.rows, st.table.row row.1 = some row.2 := by
    rintro ⟨i, row⟩ hmem
    obtain ⟨hT, -, hnot⟩ := (h.rows i row).mp hmem
    exact h.kept i row hT fun hrecorded => hnot hrecorded.2
  obtain ⟨hself, hothers, hnext, hwritten, hretired⟩ := foldl_retireRow h.nodup hkept
  have hleft : ∀ i row, (i, row) ∈ st.rows ↔
      T.row i = some row ∧ row.project = p ∧ ¬ IsRecorded p scripts row := by
    intro i row
    rw [h.rows]
    exact and_congr_right fun _ => and_congr_right fun hproject =>
      ⟨fun hnot hrecorded => hnot hrecorded.2, fun hnot hmem => hnot ⟨hproject, hmem⟩⟩
  -- the keys that the second loop does not touch
  have hgone : ∀ i row, T.row i = some row → ¬ (row.project = p ∧ ¬ IsRecorded p scripts row) →
      i ∉ st.rows.map Prod.fst := by
    intro i row hT hnot hmem
    obtain ⟨⟨j, a⟩, hja, rfl⟩ := List.mem_map.mp hmem
    obtain ⟨ha, hleft⟩ := (hleft j a).mp hja
    rw [hT] at ha
    cases ha
    exact hnot hleft
  have hnew : ∀ i, T.row i = none → i ∉ st.rows.map Prod.fst := by
    intro i hnone hmem
    obtain ⟨⟨j, a⟩, hja, rfl⟩ := List.mem_map.mp hmem
    rw [((hleft j a).mp hja).1] at hnone
    cases hnone
  refine ⟨_, _, by rw [synchronizeScriptRows, hrun]; rfl, ?_⟩
  constructor
  · intro i row hT script hscript hidentity
    rw [hothers i (hgone i row hT fun hnot => hnot.2 ⟨hidentity.1,
      hidentity.2 ▸ List.mem_map_of_mem hscript⟩)]
    exact h.saved i row hT script hscript hidentity
  · intro i row hT hproject hnot
    exact hself (i, row) ((hleft i row).mpr ⟨hT, hproject, hnot⟩)
  · intro i row hT hforeign
    rw [hothers i (hgone i row hT fun hnot => hforeign hnot.1)]
    exact h.kept i row hT fun hrecorded => hforeign hrecorded.1
  · intro i row hnone hrow
    rw [hothers i (hnew i hnone)] at hrow
    exact h.created i row hnone hrow
  · intro i j a b hi hj ha hb
    rw [hothers i (hnew i hi)] at ha
    rw [hothers j (hnew j hj)] at hb
    exact h.created_once i j a b hi hj ha hb
  · intro script hscript
    refine (h.complete script hscript).imp id ?_
    rintro ⟨i, hnone, hrow⟩
    exact ⟨i, hnone, (hothers i (hnew i hnone)).trans hrow⟩
  · exact fun hall => hnext.trans (h.next_eq hall)
  · exact hrecords.length_eq
  · refine ⟨(st.rows.filter fun row => !row.2.isRetired).map Prod.fst,
      (List.filter_sublist.map Prod.fst).nodup h.nodup, ?_, fun i => ?_⟩
    · rw [List.length_map, hretired, h.retired, Nat.zero_add]
    · simp only [List.mem_map, List.mem_filter, Prod.exists, exists_and_right, exists_eq_right,
        hleft, Bool.not_eq_true']
      refine exists_congr fun row => ?_
      tauto
  · obtain ⟨ids, hids_nodup, hlength, hids⟩ := h.written
    refine ⟨ids ++ (st.rows.filter fun row => !row.2.isRetired).map Prod.fst, ?_, ?_, fun i => ?_⟩
    -- a row of the first loop has changed, a row that is left has not
    · refine List.nodup_append.mpr ⟨hids_nodup, (List.filter_sublist.map Prod.fst).nodup h.nodup, ?_⟩
      rintro i hi j hj rfl
      obtain ⟨⟨j, row⟩, hmem, rfl⟩ := List.mem_map.mp hj
      have hmem := List.mem_of_mem_filter hmem
      exact (hids j).mp hi ((hkept _ hmem).trans ((hleft j row).mp hmem).1.symm)
    · rw [List.length_append, List.length_map, hwritten, hlength]
    · rw [List.mem_append, hids]
      by_cases hmem : i ∈ st.rows.map Prod.fst
      · obtain ⟨⟨j, row⟩, hja, rfl⟩ := List.mem_map.mp hmem
        have hT := ((hleft j row).mp hja).1
        have hsame : st.table.row j = T.row j := (hkept _ hja).trans hT.symm
        have hin : j ∈ (st.rows.filter fun row => !row.2.isRetired).map Prod.fst ↔
            row.isRetired = false := by
          simp only [List.mem_map, List.mem_filter, Prod.exists, exists_and_right,
            exists_eq_right, Bool.not_eq_true']
          constructor
          · rintro ⟨a, ha, hretired⟩
            have heq := ((hleft j a).mp ha).1
            rw [hT] at heq
            cases heq
            exact hretired
          · exact fun hretired => ⟨row, hja, hretired⟩
        -- a row that is left is written where it was in service
        have hout : (st.rows.foldl retireRow st).table.row j =
            some { row with isRetired := true } := hself _ hja
        change _ ↔ (st.rows.foldl retireRow st).table.row j ≠ T.row j
        rw [hsame, hin, hout, ne_self_iff_false, false_or, hT, ne_eq, Option.some_inj]
        constructor
        · intro hretired heq
          rw [← heq] at hretired
          cases hretired
        · intro hne
          by_contra hretired
          apply hne
          rw [Bool.not_eq_false] at hretired
          rw [← hretired]
      · rw [hothers i hmem]
        refine or_iff_left fun hin => hmem ?_
        exact (List.filter_sublist.map Prod.fst).subset hin

/-- The row is one of the project's in service. -/
structure InService (p : Id) (table : Table NetBoxScript) (i : Id) (row : NetBoxScript) : Prop where
  stored : table.row i = some row
  project : row.project = p
  isRetired : row.isRetired = false

/-- The row has what a record of a revision says. -/
structure ShowsScript (r : Id) (script : RecordedScript) (row : NetBoxScript) : Prop where
  identity : row.identity = script.identity
  displayName : row.displayName = script.displayName
  description : row.description = script.description
  metadata : row.metadata.same script.metadata = true
  lastSeenRevision : row.lastSeenRevision = some r

/-- **The rows are in line with the records**, and the counts are those of what changed. -/
structure Reconciled (p r : Id) (scripts : List RecordedScript) (T out : Table NetBoxScript)
    (result : ScriptSyncResult) : Prop where
  unique : UniqueRows out
  shown : ∀ i row, InService p out i row → ∃ script ∈ scripts, ShowsScript r script row
  complete : ∀ script ∈ scripts, ∃ i row, InService p out i row ∧ ShowsScript r script row
  unnamed : ∀ i row, T.row i = some row → row.project = p → ¬ IsRecorded p scripts row →
    out.row i = some { row with isRetired := true }
  kept : ∀ i row, T.row i = some row → ∃ row', out.row i = some row' ∧ row.SameOwned row'
  foreign : ∀ i row, T.row i = some row → row.project ≠ p → out.row i = some row
  published : result.published = scripts.length
  retired : ∃ ids : List Id, ids.Nodup ∧ ids.length = result.retired ∧ ∀ i, i ∈ ids ↔
    ∃ row row', T.row i = some row ∧ row.isRetired = false ∧ out.row i = some row' ∧
      row'.isRetired = true
  written : ∃ ids : List Id, ids.Nodup ∧ ids.length = result.written ∧
    ∀ i, i ∈ ids ↔ out.row i ≠ T.row i

theorem sameOwned_saved {row : NetBoxScript} {script : RecordedScript} :
    row.SameOwned (row.saved (publishedValues r script)) := by
  rw [saved_publishedValues]
  exact ⟨rfl, rfl, rfl, rfl, rfl, rfl⟩

theorem showsScript_saved {row : NetBoxScript} {script : RecordedScript}
    (h : row.identity = script.identity) :
    ShowsScript r script (row.saved (publishedValues r script)) := by
  rw [saved_publishedValues]
  refine ⟨h, rfl, rfl, ?_, rfl⟩
  by_cases hsame : row.metadata.same script.metadata = true
  · simp [Json.same_iff.mp hsame]
  · rw [if_neg hsame, Json.same_iff]

theorem showsScript_created {script : RecordedScript} :
    ShowsScript r script (createdScript p r script) :=
  ⟨rfl, rfl, rfl, Json.same_iff.mpr rfl, rfl⟩

theorem isRetired_saved {row : NetBoxScript} {script : RecordedScript} :
    (row.saved (publishedValues r script)).isRetired = false := by
  rw [saved_publishedValues]

/-- A row afterwards is that of a record, a retired one or another project's. -/
theorem Synchronized.cases (h : Synchronized p r scripts T out result) {i : Id}
    {row : NetBoxScript} (hrow : out.row i = some row) :
    (∃ a, T.row i = some a ∧ ∃ script ∈ scripts, HasIdentity p script a ∧
        row = a.saved (publishedValues r script)) ∨
      (∃ a, T.row i = some a ∧ a.project = p ∧ ¬ IsRecorded p scripts a ∧
        row = { a with isRetired := true }) ∨
      (T.row i = some row ∧ row.project ≠ p) ∨
      (T.row i = none ∧ ∃ script ∈ scripts, row = createdScript p r script ∧
        ∀ j a, T.row j = some a → ¬ HasIdentity p script a) := by
  cases hT : T.row i with
  | none => exact .inr (.inr (.inr ⟨rfl, h.created i row hT hrow⟩))
  | some a =>
    by_cases hproject : a.project = p
    · by_cases hrecorded : IsRecorded p scripts a
      · obtain ⟨script, hscript, heq⟩ := List.mem_map.mp hrecorded.2
        have hidentity : HasIdentity p script a := ⟨hproject, heq.symm⟩
        rw [h.named i a hT script hscript hidentity] at hrow
        exact .inl ⟨a, rfl, script, hscript, hidentity, (Option.some.inj hrow).symm⟩
      · rw [h.unnamed i a hT hproject hrecorded] at hrow
        exact .inr (.inl ⟨a, rfl, hproject, hrecorded, (Option.some.inj hrow).symm⟩)
    · rw [h.foreign i a hT hproject] at hrow
      cases hrow
      exact .inr (.inr (.inl ⟨rfl, hproject⟩))

theorem Synchronized.kept (h : Synchronized p r scripts T out result) {i : Id}
    {row : NetBoxScript} (hT : T.row i = some row) :
    ∃ row', out.row i = some row' ∧ row.SameOwned row' := by
  by_cases hproject : row.project = p
  · by_cases hrecorded : IsRecorded p scripts row
    · obtain ⟨script, hscript, heq⟩ := List.mem_map.mp hrecorded.2
      exact ⟨_, h.named i row hT script hscript ⟨hproject, heq.symm⟩, sameOwned_saved⟩
    · exact ⟨_, h.unnamed i row hT hproject hrecorded, ⟨rfl, rfl, rfl, rfl, rfl, rfl⟩⟩
  · exact ⟨row, h.foreign i row hT hproject, ⟨rfl, rfl, rfl, rfl, rfl, rfl⟩⟩

/-- A row afterwards was there under its key and identity, or is new. -/
theorem Synchronized.origin (h : Synchronized p r scripts T out result) {i : Id}
    {row : NetBoxScript} (hrow : out.row i = some row) :
    (∃ a, T.row i = some a ∧ a.project = row.project ∧ a.identity = row.identity) ∨
      (T.row i = none ∧ row.project = p ∧
        ∀ j a, T.row j = some a → a.project = p → a.identity ≠ row.identity) := by
  rcases h.cases hrow with ⟨a, hT, script, -, -, rfl⟩ | ⟨a, hT, -, -, rfl⟩ | ⟨hT, -⟩ |
    ⟨hT, script, -, rfl, hnone⟩
  · exact .inl ⟨a, hT, project_saved.symm, identity_saved.symm⟩
  · exact .inl ⟨a, hT, rfl, rfl⟩
  · exact .inl ⟨row, hT, rfl, rfl⟩
  · exact .inr ⟨hT, rfl, fun j a ha hproject hidentity => hnone j a ha ⟨hproject, hidentity⟩⟩

theorem Synchronized.unique (h : Synchronized p r scripts T out result) (hunique : UniqueRows T) :
    UniqueRows out := by
  intro i j a b ha hb hproject hidentity
  -- two old rows, an old and a new one, two new ones
  rcases h.origin ha with ⟨a', ha', hpa, hia⟩ | ⟨hi, hpa, hfreeA⟩ <;>
    rcases h.origin hb with ⟨b', hb', hpb, hib⟩ | ⟨hj, hpb, hfreeB⟩
  · exact hunique i j a' b' ha' hb' (hpa.trans (hproject.trans hpb.symm))
      (hia.trans (hidentity.trans hib.symm))
  · exact absurd (hia.trans hidentity) (hfreeB i a' ha' (hpa.trans (hproject.trans hpb)))
  · exact absurd (hib.trans hidentity.symm)
      (hfreeA j b' hb' (hpb.trans (hproject.symm.trans hpa)))
  · exact h.created_once i j a b hi hj ha hb hidentity

theorem Synchronized.shown (h : Synchronized p r scripts T out result) {i : Id}
    {row : NetBoxScript} (hrow : InService p out i row) :
    ∃ script ∈ scripts, ShowsScript r script row := by
  obtain ⟨hrow, hproject, hretired⟩ := hrow
  rcases h.cases hrow with ⟨a, -, script, hscript, hidentity, rfl⟩ | ⟨a, -, -, -, rfl⟩ |
    ⟨-, hforeign⟩ | ⟨-, script, hscript, rfl, -⟩
  · exact ⟨script, hscript, showsScript_saved hidentity.2⟩
  · cases hretired
  · exact absurd hproject hforeign
  · exact ⟨script, hscript, showsScript_created⟩

theorem Synchronized.complete_shown (h : Synchronized p r scripts T out result)
    {script : RecordedScript} (hscript : script ∈ scripts) :
    ∃ i row, InService p out i row ∧ ShowsScript r script row := by
  rcases h.complete script hscript with ⟨i, row, hT, hidentity⟩ | ⟨i, -, hrow⟩
  · exact ⟨i, _, ⟨h.named i row hT script hscript hidentity, project_saved.trans hidentity.1,
      isRetired_saved⟩, showsScript_saved hidentity.2⟩
  · exact ⟨i, _, ⟨hrow, rfl, rfl⟩, showsScript_created⟩

theorem Synchronized.reconciled (h : Synchronized p r scripts T out result)
    (hunique : UniqueRows T) : Reconciled p r scripts T out result where
  unique := h.unique hunique
  shown _ _ := h.shown
  complete _ := h.complete_shown
  unnamed := h.unnamed
  kept _ _ := h.kept
  foreign := h.foreign
  published := h.published
  retired := by
    obtain ⟨ids, hnodup, hlength, hids⟩ := h.retired
    refine ⟨ids, hnodup, hlength, fun i => (hids i).trans ?_⟩
    constructor
    · rintro ⟨row, hT, hproject, hretired, hnot⟩
      exact ⟨row, _, hT, hretired, h.unnamed i row hT hproject hnot, rfl⟩
    · rintro ⟨row, row', hT, hretired, hrow, hretired'⟩
      refine ⟨row, hT, ?_, hretired, ?_⟩
      -- a row that changed is the project's, and no record names it
      · by_contra hforeign
        rw [h.foreign i row hT hforeign] at hrow
        cases hrow
        rw [hretired] at hretired'
        cases hretired'
      · rintro ⟨hproject, hmem⟩
        obtain ⟨script, hscript, heq⟩ := List.mem_map.mp hmem
        rw [h.named i row hT script hscript ⟨hproject, heq.symm⟩] at hrow
        cases hrow
        rw [isRetired_saved] at hretired'
        cases hretired'
  written := h.written

/-- **A second call** finds nothing to write. -/
theorem synchronizeScriptRows_again (h : Synchronized p r scripts T out result)
    (hunique : UniqueRows T)
    (hrecords : List.Forall₂ (fun record script => recordedScript record = some script)
      records scripts) (hnodup : (scripts.map RecordedScript.identity).Nodup) :
    synchronizeScriptRows p r records out = some (out, ⟨records.length, 0, 0⟩) := by
  obtain ⟨again, ⟨published, retired, written⟩, hrun, h'⟩ :=
    synchronizeScriptRows_synchronized p r (h.unique hunique) hrecords hnodup
  -- the first call left a row for each record
  have hthere : ∀ script ∈ scripts, ∃ i row, out.row i = some row ∧ HasIdentity p script row := by
    intro script hscript
    obtain ⟨i, row, hrow, hshows⟩ := h.complete_shown hscript
    exact ⟨i, row, hrow.stored, hrow.project, hshows.identity⟩
  have hnamed : ∀ {i row}, InService p out i row → IsRecorded p scripts row := by
    intro i row hrow
    obtain ⟨script, hscript, hshows⟩ := h.shown hrow
    exact ⟨hrow.project, hshows.identity ▸ List.mem_map_of_mem hscript⟩
  -- so the second creates none, and what it saves is there
  have hsame : ∀ i, again.row i = out.row i := by
    intro i
    cases hout : out.row i with
    | none =>
      by_contra hne
      obtain ⟨row, hrow⟩ := Option.ne_none_iff_exists'.mp hne
      obtain ⟨script, hscript, -, hnone⟩ := h'.created i row hout hrow
      obtain ⟨j, a, ha, hidentity⟩ := hthere script hscript
      exact hnone j a ha hidentity
    | some row =>
      by_cases hproject : row.project = p
      · by_cases hrecorded : IsRecorded p scripts row
        · obtain ⟨script, hscript, heq⟩ := List.mem_map.mp hrecorded.2
          -- the row of the record is in service, and shows what would be saved
          obtain ⟨j, a, ha, hshows⟩ := h.complete_shown hscript
          obtain rfl : j = i := h.unique hunique j i a row ha.stored hout
            (ha.project.trans hproject.symm) (hshows.identity.trans heq)
          obtain rfl : a = row := Option.some.inj (ha.stored.symm.trans hout)
          rw [h'.named j a hout script hscript ⟨hproject, heq.symm⟩, saved_publishedValues,
            if_pos hshows.metadata, ← hshows.displayName, ← hshows.description,
            ← hshows.lastSeenRevision, ← ha.isRetired]
        · have hretired : row.isRetired = true := by
            by_contra hretired
            exact hrecorded (hnamed ⟨hout, hproject, Bool.eq_false_iff.mpr hretired⟩)
          rw [h'.unnamed i row hout hproject hrecorded, ← hretired]
      · exact h'.foreign i row hout hproject
  have htable : again = out := by
    have hrow : again.row = out.row := funext hsame
    have hnext := h'.next_eq hthere
    cases again
    cases out
    simp only [Table.mk.injEq]
    exact ⟨hrow, hnext⟩
  have hretired : retired = 0 := by
    obtain ⟨ids, -, hlength, hids⟩ := h'.retired
    have hnil : ids = [] := by
      refine List.eq_nil_iff_forall_not_mem.mpr fun i hi => ?_
      obtain ⟨row, hrow, hproject, hretired, hnot⟩ := (hids i).mp hi
      exact hnot (hnamed ⟨hrow, hproject, hretired⟩)
    rw [hnil] at hlength
    exact hlength.symm
  have hwritten : written = 0 := by
    obtain ⟨ids, -, hlength, hids⟩ := h'.written
    have hnil : ids = [] :=
      List.eq_nil_iff_forall_not_mem.mpr fun i hi => (hids i).mp hi (hsame i)
    rw [hnil] at hlength
    exact hlength.symm
  have hpublished : published = records.length := h'.published.trans hrecords.length_eq.symm
  rw [hrun, htable, hretired, hwritten, hpublished]

/-- **The rows of a set of records come back** when another set was synchronized between. -/
theorem Synchronized.brought_back {between back : Table NetBoxScript} {r' : Id}
    {others : List RecordedScript} {result' result'' : ScriptSyncResult}
    (h : Synchronized p r scripts T out result) (hunique : UniqueRows T)
    (h' : Synchronized p r' others out between result')
    (h'' : Synchronized p r scripts between back result'') :
    (∀ i row, InService p out i row → ∃ row', InService p back i row' ∧ row.SameOwned row' ∧
      ∃ script ∈ scripts, ShowsScript r script row ∧ ShowsScript r script row') ∧
    ∀ i row', InService p back i row' → ∃ row, InService p out i row := by
  have hforth : ∀ i row, InService p out i row → ∃ row', InService p back i row' ∧
      row.SameOwned row' ∧
      ∃ script ∈ scripts, ShowsScript r script row ∧ ShowsScript r script row' := by
    intro i row hrow
    obtain ⟨script, hscript, hshows⟩ := h.shown hrow
    obtain ⟨mid, hmid, howned⟩ := h'.kept hrow.stored
    have hproject : mid.project = p := howned.project.trans hrow.project
    have hidentity : mid.identity = script.identity := howned.identity.trans hshows.identity
    -- its identity is still that of the record, which the last call publishes again
    have hback := h''.named i mid hmid script hscript ⟨hproject, hidentity⟩
    have howned' : mid.SameOwned (mid.saved (publishedValues r script)) := sameOwned_saved
    exact ⟨_, ⟨hback, project_saved.trans hproject, isRetired_saved⟩,
      ⟨howned'.project.trans howned.project, howned'.identity.trans howned.identity,
        howned'.enabled.trans howned.enabled,
        howned'.commitDefaultOverride.trans howned.commitDefaultOverride,
        howned'.jobTimeoutOverride.trans howned.jobTimeoutOverride,
        howned'.notificationsDefaultOverride.trans howned.notificationsDefaultOverride⟩,
      script, hscript, hshows, showsScript_saved hidentity⟩
  refine ⟨hforth, fun i row' hrow' => ?_⟩
  obtain ⟨script, hscript, hshows⟩ := h''.shown hrow'
  obtain ⟨j, row, hrow, hshows'⟩ := h.complete_shown hscript
  obtain ⟨row'', hrow'', howned, -⟩ := hforth j row hrow
  -- one row of the project has the identity of the record
  have hij : i = j := h''.unique (h'.unique (h.unique hunique)) i j row' row'' hrow'.stored
    hrow''.stored (hrow'.project.trans hrow''.project.symm)
    (hshows.identity.trans (hshows'.identity.symm.trans howned.identity.symm))
  exact ⟨row, hij ▸ hrow⟩

/-- **Synchronizing with accepted records**: the rows are in line with the records, a second call
writes nothing, and a call with others between does not replace the rows. -/
theorem synchronizeScriptRows_reconciled (p r : Id) (hunique : UniqueRows T)
    (haccepted : validateDiscoveredScripts (.arr records) = .ok ()) :
    ∃ scripts out result,
      List.Forall₂ (fun record script => recordedScript record = some script) records scripts ∧
      synchronizeScriptRows p r records T = some (out, result) ∧
      Reconciled p r scripts T out result ∧
      synchronizeScriptRows p r records out = some (out, ⟨records.length, 0, 0⟩) ∧
      ∀ r' others, validateDiscoveredScripts (.arr others) = .ok () →
        ∃ between result' back result'',
          synchronizeScriptRows p r' others out = some (between, result') ∧
          synchronizeScriptRows p r records between = some (back, result'') ∧
          (∀ i row, InService p out i row → ∃ row', InService p back i row' ∧
            row.SameOwned row' ∧
            ∃ script ∈ scripts, ShowsScript r script row ∧ ShowsScript r script row') ∧
          ∀ i row', InService p back i row' → ∃ row, InService p out i row := by
  obtain ⟨scripts, hall, hnodup, -⟩ := recordedScripts_of_validateRecords haccepted
  obtain ⟨out, result, hrun, h⟩ := synchronizeScriptRows_synchronized p r hunique hall hnodup
  refine ⟨scripts, out, result, hall, hrun, h.reconciled hunique,
    synchronizeScriptRows_again h hunique hall hnodup, fun r' others haccepted' => ?_⟩
  obtain ⟨otherScripts, hall', hnodup', -⟩ := recordedScripts_of_validateRecords haccepted'
  obtain ⟨between, result', hrun', h'⟩ :=
    synchronizeScriptRows_synchronized p r' (h.unique hunique) hall' hnodup'
  obtain ⟨back, result'', hrun'', h''⟩ :=
    synchronizeScriptRows_synchronized p r (h'.unique (h.unique hunique)) hall hnodup
  exact ⟨between, result', back, result'', hrun', hrun'', h.brought_back hunique h' h''⟩

end Synchronize

/-! ## One script and another -/

/-- A record of the class `A` of the module `a`, whose metadata are empty. -/
def exampleRecord : Json :=
  .obj [(py "module_path", .str (py "a")), (py "class_name", .str (py "A")),
    (py "script_file_id", .int 1), (py "script_file_path", .str (py "a.py")),
    (py "position", .int 0), (py "display_name", .str (py "Script A")),
    (py "description", .str []), (py "metadata", .obj [])]

/-- A row of the class `B` in service, with its timeout overridden. -/
def exampleScriptRow : NetBoxScript :=
  ⟨1, py "a", py "B", py "B", [], .obj [], false, some 1, false, none, some 60, []⟩

/-- `A` is published beside `B`, which is retired, and a second call changes nothing. -/
theorem synchronizeScriptRows_example : ∃ scripts out result,
    List.Forall₂ (fun record script => recordedScript record = some script) [exampleRecord]
      scripts ∧
    synchronizeScriptRows 1 2 [exampleRecord] ((Table.startingAt 1).insert exampleScriptRow) =
      some (out, result) ∧
    Reconciled 1 2 scripts ((Table.startingAt 1).insert exampleScriptRow) out result ∧
    synchronizeScriptRows 1 2 [exampleRecord] out = some (out, ⟨1, 0, 0⟩) := by
  have hunique : UniqueRows ((Table.startingAt 1).insert exampleScriptRow) := by
    intro i j a b ha hb _ _
    rcases Table.row_insert_eq_some ha with ⟨rfl, -⟩ | h
    · rcases Table.row_insert_eq_some hb with ⟨rfl, -⟩ | h
      · rfl
      · cases h
    · cases h
  obtain ⟨scripts, out, result, hall, hrun, h, hagain, -⟩ :=
    synchronizeScriptRows_reconciled 1 2 hunique
      (show validateDiscoveredScripts (.arr [exampleRecord]) = .ok () by decide +kernel)
  exact ⟨scripts, out, result, hall, hrun, h, hagain⟩

end NetBoxScripts
