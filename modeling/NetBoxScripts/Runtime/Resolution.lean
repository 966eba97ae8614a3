import NetBoxScripts.Runtime.Introspection

/-!
# Resolution

`runtime/resolution.py`: a stored identity is walked back to a live class, through the script
file that surfaced it.

## Main definitions

* `resolveScriptClass`: the class a stored identity names

## Main results

* `resolveScriptClass_of_record`: a record resolves to the class at the place where it was found
-/

namespace NetBoxScripts

/-- How `resolve_script_class` fails. -/
inductive ResolveFailure
  | unusableSnapshot (error : MetadataError)
  | notPublished (identity : ScriptIdentity)
  | importRaised (error : Raised)
  | noLongerPublished (path : PyStr) (identity : ScriptIdentity)
  deriving DecidableEq, Repr

variable {Cls : Type}

/-- `resolve_script_class(...)`; `discover` imports the file at a path and discovers its
scripts. -/
def resolveScriptClass (facts : Cls → ClassFacts) (discover : PyStr → Except Raised (List Cls))
    (discoveredScripts : List ScriptRecord) (identity : ScriptIdentity) :
    Except ResolveFailure Cls :=
  match validateDiscoveredScripts (.arr (discoveredScripts.map ScriptRecord.toJson)) with
  | .error error => .error (.unusableSnapshot error)
  | .ok () =>
    match discoveredScripts.find? fun record => record.identity = identity with
    | none => .error (.notPublished identity)
    | some record =>
      match discover record.scriptFilePath with
      | .error error => .error (.importRaised error)
      | .ok found =>
        match found.find? fun cls => (facts cls).identity = identity with
        | none => .error (.noLongerPublished record.scriptFilePath identity)
        | some cls => .ok cls

/-- What a stored identity resolves to is published under it. -/
theorem resolveScriptClass_identity {facts : Cls → ClassFacts}
    {discover : PyStr → Except Raised (List Cls)} {records : List ScriptRecord}
    {identity : ScriptIdentity} {cls : Cls}
    (h : resolveScriptClass facts discover records identity = .ok cls) :
    (facts cls).identity = identity := by
  unfold resolveScriptClass at h
  split at h
  · cases h
  split at h
  · cases h
  split at h
  · cases h
  split at h
  · cases h
  next found hfound =>
    cases h
    simpa using List.find?_some hfound

theorem find?_identity_of_mem {records : List ScriptRecord} {record : ScriptRecord}
    (hnodup : (records.map ScriptRecord.identity).Nodup) (hmem : record ∈ records) :
    records.find? (fun r => r.identity = record.identity) = some record := by
  induction records with
  | nil => cases hmem
  | cons r records ih =>
    obtain ⟨hnew, hnodup⟩ := List.nodup_cons.mp hnodup
    rcases List.mem_cons.mp hmem with rfl | hmem
    · simp
    · have hne : r.identity ≠ record.identity := fun heq =>
        hnew (heq ▸ List.mem_map_of_mem hmem)
      rw [List.find?_cons_of_neg (by simpa using hne)]
      exact ih hnodup hmem

/-- The first element with an identity stands at the same place in lists of equal identities. -/
theorem find?_of_map_eq {Cls' : Type} {facts : Cls → ClassFacts} {facts' : Cls' → ClassFacts}
    {found : List Cls} {found' : List Cls'} {identity : ScriptIdentity}
    (hsame : found'.map (fun cls => (facts' cls).identity) =
      found.map fun cls => (facts cls).identity)
    (hmem : ∃ cls ∈ found, (facts cls).identity = identity) :
    ∃ (i : ℕ) (cls : Cls) (cls' : Cls'), found[i]? = some cls ∧ found'[i]? = some cls' ∧
      (facts cls).identity = identity ∧
      found'.find? (fun cls => (facts' cls).identity = identity) = some cls' := by
  induction found generalizing found' with
  | nil =>
    obtain ⟨cls, hcls, -⟩ := hmem
    cases hcls
  | cons cls found ih =>
    obtain ⟨cls', rest', rfl⟩ : ∃ cls' rest', found' = cls' :: rest' := by
      cases found' with
      | nil => simp at hsame
      | cons cls' rest' => exact ⟨cls', rest', rfl⟩
    obtain ⟨hhead, htail⟩ := List.cons.inj hsame
    by_cases hcls : (facts cls).identity = identity
    · exact ⟨0, cls, cls', rfl, rfl, hcls, by simp [hhead, hcls]⟩
    · have hrest : ∃ c ∈ found, (facts c).identity = identity := by
        obtain ⟨c, hc, heq⟩ := hmem
        rcases List.mem_cons.mp hc with rfl | hc
        · exact absurd heq hcls
        · exact ⟨c, hc, heq⟩
      obtain ⟨i, c, c', hi, hi', hc, hfind⟩ := ih htail hrest
      refine ⟨i + 1, c, c', by simpa using hi, by simpa using hi', hc, ?_⟩
      rw [List.find?_cons_of_neg (by simpa [hhead] using hcls)]
      exact hfind

/-- A record of a snapshot that passes its check resolves to the class at the place where its
file published a class under its identity. -/
theorem resolveScriptClass_of_record {Cls' : Type} {facts : Cls → ClassFacts}
    {facts' : Cls' → ClassFacts} {discover : PyStr → Except Raised (List Cls')}
    {records : List ScriptRecord} {record : ScriptRecord} {found : List Cls}
    {found' : List Cls'}
    (haccepted : validateDiscoveredScripts (.arr (records.map ScriptRecord.toJson)) = .ok ())
    (hrecord : record ∈ records) (hdiscover : discover record.scriptFilePath = .ok found')
    (hsame : found'.map (fun cls => (facts' cls).identity) =
      found.map fun cls => (facts cls).identity)
    (hmem : ∃ cls ∈ found, (facts cls).identity = record.identity) :
    ∃ (i : ℕ) (cls : Cls) (cls' : Cls'), found[i]? = some cls ∧ found'[i]? = some cls' ∧
      (facts cls).identity = record.identity ∧
      resolveScriptClass facts' discover records record.identity = .ok cls' := by
  obtain ⟨-, hnodup⟩ := (validateDiscoveredScripts_toJson_iff records).mp haccepted
  obtain ⟨i, cls, cls', hi, hi', hcls, hfind⟩ := find?_of_map_eq hsame hmem
  refine ⟨i, cls, cls', hi, hi', hcls, ?_⟩
  simp only [resolveScriptClass, haccepted, find?_identity_of_mem hnodup hrecord, hdiscover, hfind]

end NetBoxScripts
