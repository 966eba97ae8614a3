import NetBoxScripts.Python.JsonKeys
import NetBoxScripts.Storage.ManifestText

/-!
# Manifests under one digest

What `validate_manifest` accepts of a manifest that was read back, whatever fields its entries
have besides, and what two manifests share that it accepts under one digest.

## Main definitions

* `RecordsEntry`: a value that records one entry
* `recordedAt`: what a manifest records at a path

## Main results

* `validateManifest_records`: an accepted manifest records trusted entries
* `validateManifest_perm`: the manifests accepted under one digest are one another's reorderings
-/

namespace NetBoxScripts

/-- The value records the entry, and whatever it has besides. -/
structure RecordsEntry (value : Json) (entry : ManifestEntry) : Prop where
  path : value.get? (py "path") = some (.str entry.path)
  size : value.get? (py "size") = some (.int entry.size)
  sha256 : value.get? (py "sha256") = some (.str entry.sha256)

/-- `{entry['path']: (entry['size'], entry['sha256']) for entry in manifest}` -/
def recordedAt (manifest : List Json) (path : PyStr) : Option (ℤ × PyStr) :=
  (manifest.find? fun value => entryPath value = some path).bind fun value => do
    let size ← (value.get? (py "size")).bind Json.int?
    let checksum ← (value.get? (py "sha256")).bind Json.str?
    return (size, checksum)

theorem RecordsEntry.entryPath {value : Json} {entry : ManifestEntry}
    (h : RecordsEntry value entry) : entryPath value = some entry.path := by
  rw [NetBoxScripts.entryPath, h.path]
  rfl

section Validate

variable [Unicode] [Hashing] {manifest : List Json} {index : ℕ} {paths paths' : List PyStr}

omit [Hashing] in
/-- An entry without a reason against it is recorded, under a path that is new. -/
theorem validateEntry_records {value : Json}
    (h : validateEntry index value paths = .ok ([], paths')) :
    ∃ entry, RecordsEntry value entry ∧ Acceptable entry ∧ entry.path ∉ paths ∧
      paths' = entry.path :: paths := by
  cases value with
  | obj fields =>
    rw [validateEntry] at h
    split at h
    · next path size checksum hpath hsize hchecksum =>
      cases path with
      | str path =>
        simp only [Json.str?] at h
        split at h
        · cases h
        · cases h
        · next canonical hcanonical =>
          rcases eq_or_ne canonical path with rfl | hne
          · simp only [ne_eq, not_true_eq_false, if_false, Except.ok.injEq, Prod.mk.injEq,
              List.append_eq_nil_iff] at h
            obtain ⟨⟨⟨hduplicate, hplausible⟩, hhex⟩, rfl⟩ := h
            have hmem : canonical ∉ paths := by simpa using hduplicate
            have hplausible : isPlausibleSize size := by simpa using hplausible
            have hhex : isChecksum checksum := by simpa using hhex
            cases size with
            | int n =>
              cases checksum with
              | str digest =>
                have hn : 0 ≤ n := by simpa [isPlausibleSize, Json.int?] using hplausible
                refine ⟨⟨canonical, n.toNat, digest⟩, ⟨hpath, ?_, hchecksum⟩,
                  ⟨hcanonical, by simpa [isChecksum, Json.str?] using hhex⟩, hmem, by simp [hmem]⟩
                rw [hsize, Int.toNat_of_nonneg hn]
              | _ => cases hhex
            | _ => cases hplausible
          · simp [hne] at h
      | _ => cases h
    · cases h
  | _ => cases h

omit [Hashing] in
theorem validateEntries_records (hpaths : paths.Nodup)
    (h : validateEntries index manifest paths = .ok ([], paths')) :
    ∃ entries, List.Forall₂ RecordsEntry manifest entries ∧ (∀ entry ∈ entries, Acceptable entry) ∧
      paths' = (entries.map ManifestEntry.path).reverse ++ paths ∧ paths'.Nodup := by
  induction manifest generalizing index paths with
  | nil =>
    obtain rfl : paths' = paths := by simpa [validateEntries, eq_comm] using h
    exact ⟨[], .nil, by simp, by simp, hpaths⟩
  | cons value manifest ih =>
    rw [validateEntries, Except.bind_eq_ok_iff] at h
    obtain ⟨⟨reasons, paths₁⟩, h₁, h⟩ := h
    obtain ⟨⟨rest, paths₂⟩, h₂, h⟩ := Except.bind_eq_ok_iff.mp h
    simp only [pure, Except.pure, Except.ok.injEq, Prod.mk.injEq, List.append_eq_nil_iff] at h
    obtain ⟨⟨rfl, rfl⟩, rfl⟩ := h
    obtain ⟨entry, hrecords, hacceptable, hnew, rfl⟩ := validateEntry_records h₁
    obtain ⟨entries, hall, haccept, heq, hnodup⟩ := ih (List.nodup_cons.mpr ⟨hnew, hpaths⟩) h₂
    exact ⟨entry :: entries, .cons hrecords hall, List.forall_mem_cons.mpr ⟨hacceptable, haccept⟩,
      by simp [heq], hnodup⟩

/-- **An accepted manifest records trusted entries**, one for each of its values. -/
theorem validateManifest_records {digest : Option PyStr}
    (h : validateManifest (.arr manifest) digest = .ok ()) :
    ∃ entries, List.Forall₂ RecordsEntry manifest entries ∧ Trusted entries ∧
      ∀ d ∈ digest, computeDigest manifest = some d := by
  rw [validateManifest, Except.bind_eq_ok_iff] at h
  obtain ⟨⟨reasons, paths⟩, hentries, h⟩ := h
  dsimp only at h
  -- the digest is compared only where no value was refused
  split_ifs at h with hmismatch hnil
  · cases hnil
  · rename_i hreasons
    obtain ⟨rfl, hconflicts⟩ := List.append_eq_nil_iff.mp hreasons
    obtain ⟨entries, hall, haccept, rfl, hnodup⟩ := validateEntries_records List.nodup_nil hentries
    rw [List.append_nil] at hconflicts hnodup
    have hperm := List.reverse_perm (entries.map ManifestEntry.path)
    refine ⟨entries, hall, ⟨haccept, hperm.nodup_iff.mp hnodup,
      (conflictingPaths_eq_nil_iff.mp hconflicts).perm hperm⟩, ?_⟩
    rintro d rfl
    by_contra hne
    exact hmismatch ⟨hreasons, by simpa using hne⟩

end Validate

/-! ## One digest -/

section Digest

variable [Hashing] {manifest : List Json}

/-- A digest is the hash of the text of the values, in some order. -/
theorem computeDigest_eq_some {digest : PyStr} (h : computeDigest manifest = some digest) :
    ∃ sorted, sorted.Perm manifest ∧ digest = sha256 (encodeAscii (Json.dumps (.arr sorted))) := by
  rw [computeDigest, Option.map_eq_some_iff] at h
  obtain ⟨keyed, hkeyed, rfl⟩ := h
  refine ⟨_, ?_, rfl⟩
  -- the paths are keys of the sort and do not reach the text
  have hvalues : keyed.map Prod.snd = manifest := by
    induction manifest generalizing keyed with
    | nil =>
      obtain rfl : keyed = [] := by simpa [eq_comm] using hkeyed
      rfl
    | cons value manifest ih =>
      simp only [List.mapM_cons, Option.bind_eq_bind, Option.bind_eq_some_iff,
        Option.map_eq_some_iff, Option.pure_def, Option.some_inj] at hkeyed
      obtain ⟨first, ⟨path, -, rfl⟩, rest, hrest, rfl⟩ := hkeyed
      rw [List.map_cons, ih rest hrest]
  rw [← hvalues]
  exact (List.perm_insertionSort _ keyed).map Prod.snd

/-- Where hashes tell contents apart, values with one digest are one another's reorderings. -/
theorem perm_of_computeDigest_eq (hsha : Function.Injective (sha256 : Bytes → PyStr))
    {a b : List Json} {digest : PyStr} (ha : ∀ value ∈ a, value.ReadBack)
    (hb : ∀ value ∈ b, value.ReadBack) (hda : computeDigest a = some digest)
    (hdb : computeDigest b = some digest) : (a.map Json.sortKeys).Perm (b.map Json.sortKeys) := by
  obtain ⟨sa, hpa, hsa⟩ := computeDigest_eq_some hda
  obtain ⟨sb, hpb, hsb⟩ := computeDigest_eq_some hdb
  have hreada : (Json.arr sa).ReadBack := .arr fun value hvalue => ha value (hpa.mem_iff.mp hvalue)
  have hreadb : (Json.arr sb).ReadBack := .arr fun value hvalue => hb value (hpb.mem_iff.mp hvalue)
  -- the hash and the encoding give the text back, the text the values
  have htext := encodeAscii_inj (Json.lt_of_mem_dumps hreada) (Json.lt_of_mem_dumps hreadb)
    (hsha (hsa.symm.trans hsb))
  have hsorted := Json.dumps_inj hreada hreadb htext
  rw [Json.sortKeys_arr, Json.sortKeys_arr] at hsorted
  calc (a.map Json.sortKeys).Perm (sa.map Json.sortKeys) := (hpa.map _).symm
    _ = sb.map Json.sortKeys := Json.arr.inj hsorted
    (sb.map Json.sortKeys).Perm (b.map Json.sortKeys) := hpb.map _

omit [Hashing] in
theorem recordedAt_eq_some_iff (hnodup : (manifest.map entryPath).Nodup) {path : PyStr} {size : ℤ}
    {checksum : PyStr} : recordedAt manifest path = some (size, checksum) ↔
      ∃ value ∈ manifest, value.get? (py "path") = some (.str path) ∧
        value.get? (py "size") = some (.int size) ∧
        value.get? (py "sha256") = some (.str checksum) := by
  have hint : ∀ {value : Option Json} {n : ℤ}, value.bind Json.int? = some n ↔
      value = some (.int n) := by
    intro value n
    rcases value with - | value
    · simp
    · cases value <;> simp [Json.int?]
  have hstr : ∀ {value : Option Json} {s : PyStr}, value.bind Json.str? = some s ↔
      value = some (.str s) := by
    intro value s
    rcases value with - | value
    · simp
    · cases value <;> simp [Json.str?]
  simp only [recordedAt, Option.bind_eq_bind, Option.bind_eq_some_iff, Option.pure_def,
    Option.some_inj, Prod.mk.injEq, hint, hstr]
  constructor
  · rintro ⟨value, hfound, _, hsize, _, hchecksum, rfl, rfl⟩
    have hpath : entryPath value = some path := by simpa using List.find?_some hfound
    exact ⟨value, List.mem_of_find?_eq_some hfound, hstr.mp hpath, hsize, hchecksum⟩
  · rintro ⟨value, hvalue, hpath, hsize, hchecksum⟩
    have hpath := hstr.mpr hpath
    refine ⟨value, ?_, size, hsize, checksum, hchecksum, rfl, rfl⟩
    -- the first value under the path is the only one
    cases hfound : manifest.find? fun other => entryPath other = some path with
    | none => exact absurd (decide_eq_true hpath) (List.find?_eq_none.mp hfound value hvalue)
    | some other =>
      have hother : entryPath other = some path := by simpa using List.find?_some hfound
      rw [List.inj_on_of_nodup_map hnodup (List.mem_of_find?_eq_some hfound) hvalue
        (hother.trans hpath.symm)]

omit [Hashing] in
/-- What is recorded at a path does not depend on the order of entries or keys. -/
theorem recordedAt_perm {a b : List Json} (ha : ∀ value ∈ a, value.ReadBack)
    (hb : ∀ value ∈ b, value.ReadBack) (hna : (a.map entryPath).Nodup)
    (hnb : (b.map entryPath).Nodup) (h : (a.map Json.sortKeys).Perm (b.map Json.sortKeys)) :
    recordedAt a = recordedAt b := by
  -- a field that is no container is the same before and after the keys are sorted
  have hget : ∀ {value value' : Json} {key : PyStr} {field : Json}, value.ReadBack →
      value'.ReadBack → value.sortKeys = value'.sortKeys → (∀ v : Json, v.sortKeys = field →
        v = field) → field.sortKeys = field → value.get? key = some field →
        value'.get? key = some field := by
    intro value value' key field hvalue hvalue' hsame hfield hfixed hkey
    have hsorted := Json.get?_sortKeys hvalue' key
    rw [← hsame, Json.get?_sortKeys hvalue key, hkey, Option.map_some, hfixed] at hsorted
    obtain ⟨v, hv, hvf⟩ := Option.map_eq_some_iff.mp hsorted.symm
    rw [hv, hfield v hvf]
  have hint : ∀ (n : ℤ) (v : Json), v.sortKeys = .int n → v = .int n := by
    intro n v hv
    cases v with
    | arr => rw [Json.sortKeys_arr] at hv; cases hv
    | obj => rw [Json.sortKeys_obj] at hv; cases hv
    | _ => exact hv
  have hstr : ∀ (s : PyStr) (v : Json), v.sortKeys = .str s → v = .str s := by
    intro s v hv
    cases v with
    | arr => rw [Json.sortKeys_arr] at hv; cases hv
    | obj => rw [Json.sortKeys_obj] at hv; cases hv
    | _ => exact hv
  -- one direction; the other is the same with the manifests exchanged
  have hhalf : ∀ {a b : List Json} {path : PyStr} {file : ℤ × PyStr},
      (∀ value ∈ a, value.ReadBack) → (∀ value ∈ b, value.ReadBack) → (a.map entryPath).Nodup →
      (b.map entryPath).Nodup → (a.map Json.sortKeys).Perm (b.map Json.sortKeys) →
      recordedAt a path = some file → recordedAt b path = some file := by
    intro a b path file ha hb hna hnb h hrecorded
    obtain ⟨value, hvalue, hpath, hsize, hchecksum⟩ := (recordedAt_eq_some_iff hna).mp hrecorded
    obtain ⟨value', hvalue', hsame⟩ :=
      List.mem_map.mp (h.mem_iff.mp (List.mem_map_of_mem hvalue))
    have hread := ha value hvalue
    have hread' := hb value' hvalue'
    exact (recordedAt_eq_some_iff hnb).mpr ⟨value', hvalue',
      hget hread hread' hsame.symm (hstr _) rfl hpath,
      hget hread hread' hsame.symm (hint _) rfl hsize,
      hget hread hread' hsame.symm (hstr _) rfl hchecksum⟩
  funext path
  apply Option.ext
  intro file
  exact ⟨hhalf ha hb hna hnb h, hhalf hb ha hnb hna h.symm⟩

omit [Hashing] in
theorem nodup_entryPath {entries : List ManifestEntry}
    (h : List.Forall₂ RecordsEntry manifest entries)
    (hnodup : (entries.map ManifestEntry.path).Nodup) :
    (manifest.map entryPath).Nodup := by
  have hpaths : manifest.map entryPath = (entries.map ManifestEntry.path).map some := by
    clear hnodup
    induction h with
    | nil => rfl
    | cons hrecords _ ih => rw [List.map_cons, hrecords.entryPath, ih]; rfl
  rw [hpaths]
  exact hnodup.map (Option.some_injective _)

variable [Unicode]

/-- **Manifests accepted under one digest** are one another's reorderings, up to the order of keys,
and record the same at every path. -/
theorem validateManifest_perm (hsha : Function.Injective (sha256 : Bytes → PyStr))
    {a b : List Json} {digest : PyStr} (hreada : ∀ value ∈ a, value.ReadBack)
    (hreadb : ∀ value ∈ b, value.ReadBack)
    (ha : validateManifest (.arr a) (some digest) = .ok ())
    (hb : validateManifest (.arr b) (some digest) = .ok ()) :
    (a.map Json.sortKeys).Perm (b.map Json.sortKeys) ∧ recordedAt a = recordedAt b := by
  obtain ⟨as, hallA, htrustedA, hdigestA⟩ := validateManifest_records ha
  obtain ⟨bs, hallB, htrustedB, hdigestB⟩ := validateManifest_records hb
  have hperm := perm_of_computeDigest_eq hsha hreada hreadb (hdigestA digest rfl)
    (hdigestB digest rfl)
  exact ⟨hperm, recordedAt_perm hreada hreadb (nodup_entryPath hallA htrustedA.nodup)
    (nodup_entryPath hallB htrustedB.nodup) hperm⟩

end Digest

/-- The text of the manifest of `a.py`. -/
def manifestText : Bytes :=
  encodeAscii (py ("[\x7b\"path\":\"a.py\",\"sha256\":\"" ++ hashOfX ++ "\",\"size\":1\x7d]"))

/-- A hash that tells all contents apart, with the real one of that text. -/
@[reducible] def manifestHashing : Hashing where
  sha256 content := if content = manifestText then
      py "4b60693728c5583063854db9944e454be43d0198fc30a7f614b3afdd58adaf26"
    else 120 :: content.map UInt8.toNat

theorem manifestHashing_injective : Function.Injective manifestHashing.sha256 := by
  -- the digest of the text begins with another character than the hash of any other content
  have hhead : ∀ rest : PyStr,
      py "4b60693728c5583063854db9944e454be43d0198fc30a7f614b3afdd58adaf26" ≠ 120 :: rest := by
    intro rest heq
    have hfirst : (py "4b60693728c5583063854db9944e454be43d0198fc30a7f614b3afdd58adaf26").head? =
        some 52 := by decide
    rw [heq] at hfirst
    cases hfirst
  intro a b h
  change ite _ _ _ = ite _ _ _ at h
  split_ifs at h with ha hb hb
  · rw [ha, hb]
  · exact absurd h (hhead _)
  · exact absurd h.symm (hhead _)
  · exact List.map_injective_iff.mpr (fun x y hxy => UInt8.toNat_inj.mp hxy) (List.cons.inj h).2

/-- The entry of `a.py` with its keys in another order. -/
def reorderedEntry : Json :=
  .obj [(py "sha256", .str (py hashOfX)), (py "path", .str (py "a.py")), (py "size", .int 1)]

/-- The manifest of `a.py`, and the same with its keys in another order. -/
theorem validateManifest_perm_reordered :
    ([(oneEntry (py "a.py")).toJson].map Json.sortKeys).Perm ([reorderedEntry].map Json.sortKeys) ∧
      recordedAt [(oneEntry (py "a.py")).toJson] = recordedAt [reorderedEntry] := by
  have hread : ∀ {fields : List (PyStr × Json)}, (fields.map Prod.fst).Nodup →
      (∀ field ∈ fields, ∀ c ∈ field.1, isScalar c) → (∀ field ∈ fields, field.2.ReadBack) →
      ∀ value ∈ [Json.obj fields], value.ReadBack := by
    intro fields hnodup hscalar hvalues
    exact List.forall_mem_singleton.mpr (.obj hnodup hscalar hvalues)
  have hpath : (Json.str (py "a.py")).ReadBack := .str (by decide)
  have hhash : (Json.str (py hashOfX)).ReadBack := .str (by decide)
  refine @validateManifest_perm manifestHashing asciiUnicode manifestHashing_injective _ _
    (py "4b60693728c5583063854db9944e454be43d0198fc30a7f614b3afdd58adaf26")
    (hread (by decide) (by decide) ?_) (hread (by decide) (by decide) ?_)
    (by decide +kernel) (by decide +kernel)
  · simp only [List.forall_mem_cons]
    exact ⟨hpath, .int _, hhash, by simp⟩
  · simp only [List.forall_mem_cons]
    exact ⟨hhash, hpath, .int _, by simp⟩

end NetBoxScripts
