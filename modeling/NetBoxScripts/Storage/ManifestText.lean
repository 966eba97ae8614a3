import NetBoxScripts.Python.JsonText
import NetBoxScripts.Storage.Manifest

/-!
# What a digest addresses

A digest is the hash of the manifest's text. Where hashes tell contents apart, two manifests with
one digest record the same file at every path.

## Main definitions

* `CollisionFree`: what is relied on of SHA-256
* `ManifestEntry.Readable`: the entries whose text tells them apart
* `fileAt`: what a manifest records at a path

## Main results

* `fileAt_eq_of_manifestDigest_eq`
-/

namespace NetBoxScripts

/-- What is relied on of SHA-256: it tells contents apart, and its hashes are ASCII text. -/
structure CollisionFree [Hashing] : Prop where
  injective : Function.Injective (sha256 : Bytes → PyStr)
  ascii : ∀ content, ∀ c ∈ sha256 content, c < 128

/-- An entry whose text tells it apart: its path has a UTF-8 form, and its checksum looks like one
or is one. -/
structure ManifestEntry.Readable [Hashing] (entry : ManifestEntry) : Prop where
  path : ∀ c ∈ entry.path, isScalar c
  sha256 : isHexDigest entry.sha256 ∨ ∃ content, entry.sha256 = Hashing.sha256 content

/-- The size and hash a manifest records at each path it has. -/
def fileAt (manifest : List ManifestEntry) (path : PyStr) : Option (ℕ × PyStr) :=
  (manifest.find? fun entry => entry.path = path).map fun entry => (entry.size, entry.sha256)

section Text

variable [Hashing] {a b : List ManifestEntry}

omit [Hashing] in
theorem isScalar_of_lt {c : ℕ} (h : c < 128) : isScalar c := by
  have hlt : c < 0xD800 := Nat.lt_trans h (by decide)
  simp [isScalar, hlt]

theorem ManifestEntry.Readable.sha256_scalar {entry : ManifestEntry} (h : entry.Readable)
    (hfree : CollisionFree) : ∀ c ∈ entry.sha256, isScalar c := by
  intro c hc
  apply isScalar_of_lt
  rcases h.sha256 with hhex | ⟨content, heq⟩
  · simp only [isHexDigest, Bool.and_eq_true, List.all_eq_true, Bool.or_eq_true,
      decide_eq_true_eq] at hhex
    rcases hhex.2 c hc with h | h
    · omega
    · omega
  · exact hfree.ascii content c (heq ▸ hc)

/-- The text of one entry. -/
def ManifestEntry.text (entry : ManifestEntry) : PyStr := Json.dumps entry.toJson

omit [Hashing] in
theorem ManifestEntry.text_append (entry : ManifestEntry) (rest : PyStr) :
    entry.text ++ rest = 123 :: (Json.quote (py "path") ++ 58 :: (Json.quote entry.path ++ 44 ::
      (Json.quote (py "sha256") ++ 58 :: (Json.quote entry.sha256 ++ 44 ::
      (Json.quote (py "size") ++ 58 :: (decimal entry.size ++ 125 :: rest)))))) := by
  have hsorted : ∀ x y z : PyStr, ([(py "path", x), (py "size", y), (py "sha256", z)] :
      List (PyStr × PyStr)).insertionSort (fun a b => a.1 ≤ b.1) =
        [(py "path", x), (py "sha256", z), (py "size", y)] := by
    intro x y z
    have h₁ : py "size" ≤ py "sha256" ↔ False := by decide
    have h₂ : py "path" ≤ py "sha256" ↔ True := by decide
    simp only [List.insertionSort, List.foldr, List.orderedInsert, h₁, h₂, if_true, if_false]
  rw [text, toJson, Json.dumps, Json.dumpsFields, Json.dumpsFields, Json.dumpsFields,
    Json.dumpsFields, hsorted]
  simp [Json.commaJoin, Json.dumps, Json.intText]

/-- The text of an entry is told from what follows it. -/
theorem ManifestEntry.text_append_inj {e e' : ManifestEntry} {rest rest' : PyStr}
    (hfree : CollisionFree) (he : e.Readable) (he' : e'.Readable)
    (h : e.text ++ rest = e'.text ++ rest') : e = e' ∧ rest = rest' := by
  rw [text_append, text_append] at h
  have h₁ := (List.cons.inj (List.append_cancel_left (List.cons.inj h).2)).2
  obtain ⟨hpath, h₂⟩ := Json.quote_append_inj he.path he'.path h₁
  have h₃ := (List.cons.inj (List.append_cancel_left (List.cons.inj h₂).2)).2
  obtain ⟨hsha, h₄⟩ := Json.quote_append_inj (he.sha256_scalar hfree) (he'.sha256_scalar hfree) h₃
  have h₅ := (List.cons.inj (List.append_cancel_left (List.cons.inj h₄).2)).2
  obtain ⟨hsize, hrest⟩ := Json.decimal_append_inj (by decide) h₅
  cases e
  cases e'
  exact ⟨by simp_all, hrest⟩

omit [Hashing] in
theorem lt_of_mem_text {entry : ManifestEntry} {x : ℕ} (hx : x ∈ entry.text) : x < 128 := by
  have h := entry.text_append []
  rw [List.append_nil] at h
  rw [h] at hx
  simp only [List.mem_cons, List.mem_append, List.not_mem_nil, or_false] at hx
  have hdecimal : x ∈ decimal entry.size → x < 128 := by
    intro hx
    have := Json.isDigit_of_mem_decimal hx
    simp only [Json.isDigit, Bool.and_eq_true, decide_eq_true_eq] at this
    omega
  rcases hx with rfl | hx | rfl | hx | rfl | hx | rfl | hx | rfl | hx | rfl | hx | rfl
  all_goals first | decide | exact Json.lt_of_mem_quote hx | exact hdecimal hx

/-- The texts of entries are told from what follows them. -/
theorem ManifestEntry.selfDelimiting (hfree : CollisionFree) :
    Json.SelfDelimiting ManifestEntry.toJson ManifestEntry.Readable where
  opens entry := ⟨_, by simpa [ManifestEntry.text] using entry.text_append []⟩
  inj _ _ _ _ he he' h := ManifestEntry.text_append_inj hfree he he' h
  ascii _ _ hc := lt_of_mem_text hc

omit [Hashing] in
theorem encodeAscii_inj {s s' : PyStr} (hs : ∀ c ∈ s, c < 128) (hs' : ∀ c ∈ s', c < 128)
    (h : encodeAscii s = encodeAscii s') : s = s' := by
  have hdecode : ∀ s : PyStr, (∀ c ∈ s, c < 128) → (encodeAscii s).map UInt8.toNat = s := by
    intro s hs
    rw [encodeAscii, List.map_map]
    conv_rhs => rw [← List.map_id s]
    refine List.map_congr_left fun c hc => ?_
    have hlt : c < 256 := Nat.lt_trans (hs c hc) (by decide)
    simpa using Nat.mod_eq_of_lt hlt
  rw [← hdecode s hs, h, hdecode s' hs']

/-- Manifests with one digest are one another's reorderings. -/
theorem perm_of_manifestDigest_eq (hfree : CollisionFree) (ha : ∀ entry ∈ a, entry.Readable)
    (hb : ∀ entry ∈ b, entry.Readable) (h : manifestDigest a = manifestDigest b) : a.Perm b := by
  have hsorted : sortByPath a = sortByPath b := by
    have htext := ManifestEntry.selfDelimiting hfree
    refine Json.dumps_arr_inj htext (fun entry hentry => ha entry ?_)
      (fun entry hentry => hb entry ?_) ?_
    · exact (List.mem_insertionSort _).mp hentry
    · exact (List.mem_insertionSort _).mp hentry
    · exact encodeAscii_inj (fun c => Json.lt_of_mem_dumps_arr htext)
        (fun c => Json.lt_of_mem_dumps_arr htext) (hfree.injective h)
  have hperm : (sortByPath a).Perm b := by
    rw [hsorted]
    exact List.perm_insertionSort _ b
  exact (List.perm_insertionSort _ a).symm.trans hperm

omit [Hashing] in
theorem fileAt_eq_some_iff (hnodup : (a.map ManifestEntry.path).Nodup) {path : PyStr}
    {file : ℕ × PyStr} : fileAt a path = some file ↔
      ∃ entry ∈ a, entry.path = path ∧ (entry.size, entry.sha256) = file := by
  rw [fileAt, Option.map_eq_some_iff]
  constructor
  · rintro ⟨entry, hfound, heq⟩
    exact ⟨entry, List.mem_of_find?_eq_some hfound, by simpa using List.find?_some hfound, heq⟩
  · rintro ⟨entry, hentry, rfl, heq⟩
    refine ⟨entry, ?_, heq⟩
    cases hfound : a.find? fun other => other.path = entry.path with
    | none => simpa using List.find?_eq_none.mp hfound entry hentry
    | some other =>
      have hpath : other.path = entry.path := by simpa using List.find?_some hfound
      rw [List.inj_on_of_nodup_map hnodup (List.mem_of_find?_eq_some hfound) hentry hpath]

/-- **A digest addresses files**: manifests with one digest record the same at every path. -/
theorem fileAt_eq_of_manifestDigest_eq (hfree : CollisionFree)
    (ha : ∀ entry ∈ a, entry.Readable) (hb : ∀ entry ∈ b, entry.Readable)
    (hnodup : (a.map ManifestEntry.path).Nodup) (h : manifestDigest a = manifestDigest b) :
    fileAt a = fileAt b := by
  have hperm := perm_of_manifestDigest_eq hfree ha hb h
  have hnodup' := (hperm.map ManifestEntry.path).nodup_iff.mp hnodup
  funext path
  apply Option.ext
  intro file
  rw [fileAt_eq_some_iff hnodup, fileAt_eq_some_iff hnodup']
  simp only [hperm.mem_iff]

end Text

end NetBoxScripts
