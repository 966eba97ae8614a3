import Mathlib.Algebra.GroupWithZero.Nat
import Mathlib.Data.List.DropRight
import Mathlib.Data.List.Lex
import Mathlib.Data.List.Sort

/-!
# Python text

A Python `str` is a sequence of code points, surrogates included; its order is the
lexicographic order of code points. The Unicode tables an interpreter ships are a parameter:
a `Unicode` value carries normalization, lower-casing and the identifier test together with
the two laws of NFC every path check rests on.

## Main definitions

* `PyStr`, `py`: strings, and literals of them
* `Unicode`: the interpreter's Unicode tables
* `split`, `join`, `strip`, `windowsDrive`: the `str` and `PureWindowsPath` operations

## Main results

* `strip_eq_self_iff`: stripping keeps a string whose first and last characters are no
  whitespace
* `windowsDrive_of_relative`: the drive of a string that starts with no separator
* `join_split`, `split_join`: splitting and joining at one separator
-/

namespace NetBoxScripts

/-- A Python string: its code points. -/
abbrev PyStr := List ℕ

-- Under names of their own, so that membership tests elaborate alike in every module.
instance : LawfulBEq PyStr := inferInstanceAs (LawfulBEq (List ℕ))

instance : LawfulBEq (PyStr × PyStr) := inferInstance

/-- The Python string a literal stands for. -/
def py (s : String) : PyStr := s.toList.map Char.toNat

/-- The decimal text of a number, `str(n)`. -/
def decimal (n : ℕ) : PyStr := (Nat.toDigits 10 n).map Char.toNat

/-! ## Separators -/

/-- `/` -/
def slash : ℕ := 47

/-- `\` -/
def backslash : ℕ := 92

/-- `:` -/
def colon : ℕ := 58

/-- `s.split('/')` -/
def split (s : PyStr) : List PyStr := s.splitOn slash

/-- `'/'.join(segments)` -/
def join (segments : List PyStr) : PyStr := [slash].intercalate segments

@[simp] theorem join_split (s : PyStr) : join (split s) = s :=
  List.intercalate_splitOn slash

theorem split_join {segments : List PyStr} (hs : ∀ s ∈ segments, slash ∉ s)
    (hne : segments ≠ []) : split (join segments) = segments :=
  List.splitOn_intercalate slash hs hne

@[simp] theorem join_singleton (s : PyStr) : join [s] = s := by simp [join]

theorem join_cons {s : PyStr} {segments : List PyStr} (h : segments ≠ []) :
    join (s :: segments) = s ++ slash :: join segments := by
  obtain ⟨t, segments, rfl⟩ := List.exists_cons_of_ne_nil h
  simp [join, List.intercalate_cons_cons]

theorem mem_join {c : ℕ} {segments : List PyStr} (h : c ∈ join segments) :
    c = slash ∨ ∃ s ∈ segments, c ∈ s := by
  induction segments with
  | nil => simp [join] at h
  | cons s segments ih =>
    rcases eq_or_ne segments [] with rfl | hne
    · exact .inr ⟨s, by simp, by simpa using h⟩
    · rw [join_cons hne, List.mem_append, List.mem_cons] at h
      rcases h with h | h | h
      · exact .inr ⟨s, by simp, h⟩
      · exact .inl h
      · rcases ih h with h | ⟨t, ht, hc⟩
        · exact .inl h
        · exact .inr ⟨t, List.mem_cons_of_mem _ ht, hc⟩

/-- A join starts as its first segment does. -/
theorem head?_join {segments : List PyStr} (h : [] ∉ segments) :
    (join segments).head? = segments.head?.bind List.head? := by
  cases segments with
  | nil => simp [join]
  | cons s segments =>
    obtain ⟨c, s, rfl⟩ := List.exists_cons_of_ne_nil (fun he : s = [] => h (he ▸ by simp))
    rcases eq_or_ne segments [] with rfl | hne
    · simp
    · simp [join_cons hne]

theorem join_concat {s : PyStr} {segments : List PyStr} (h : segments ≠ []) :
    join (segments ++ [s]) = join segments ++ slash :: s := by
  induction segments with
  | nil => exact absurd rfl h
  | cons t segments ih =>
    rcases eq_or_ne segments [] with rfl | hne
    · simp [join_cons]
    · rw [List.cons_append, join_cons (by simp), ih hne, join_cons hne]
      simp

/-- A join ends as its last segment does. -/
theorem getLast?_join {segments : List PyStr} (h : [] ∉ segments) :
    (join segments).getLast? = segments.getLast?.bind List.getLast? := by
  cases hs : segments using List.reverseRecOn with
  | nil => simp [join]
  | append_singleton init last =>
    have hlast : last ≠ [] := fun he => h (by simp [hs, he])
    rcases eq_or_ne init [] with rfl | hne
    · simp
    · rw [join_concat hne, List.append_cons, List.getLast?_append_of_ne_nil _ hlast]
      simp

theorem split_ne_nil (s : PyStr) : split s ≠ [] := List.splitOn_ne_nil slash s

theorem slash_notMem_of_mem_split {s segment : PyStr} (h : segment ∈ split s) :
    slash ∉ segment := by
  induction s generalizing segment with
  | nil => simp_all [split]
  | cons c s ih =>
    rw [split, List.splitOn_cons_eq_if_modifyHead] at h
    split_ifs at h with hc
    · rcases List.mem_cons.mp h with rfl | h
      · simp
      · exact ih h
    · obtain ⟨first, rest, hr⟩ := List.exists_cons_of_ne_nil (split_ne_nil s)
      rw [show s.splitOn slash = first :: rest from hr, List.modifyHead_cons] at h
      rcases List.mem_cons.mp h with rfl | h
      · have := ih (hr ▸ List.mem_cons_self)
        have hne : c ≠ slash := by simpa using hc
        simp [this, hne.symm]
      · exact ih (hr ▸ List.mem_cons_of_mem _ h)

theorem mem_of_mem_split {c : ℕ} {s segment : PyStr} (h : segment ∈ split s) (hc : c ∈ segment) :
    c ∈ s := by
  rw [← join_split s]
  generalize split s = segments at h
  induction segments with
  | nil => simp at h
  | cons t segments ih =>
    rcases eq_or_ne segments [] with rfl | hne
    · obtain rfl : segment = t := by simpa using h
      simpa using hc
    · rw [join_cons hne, List.mem_append, List.mem_cons]
      rcases List.mem_cons.mp h with rfl | h
      · exact .inl hc
      · exact .inr (.inr (ih h))

/-! ## Whitespace -/

/-- `str.isspace` of one character. -/
def isSpace (c : ℕ) : Bool :=
  (9 ≤ c && c ≤ 13) || (28 ≤ c && c ≤ 32) || c == 0x85 || c == 0xA0 || c == 0x1680 ||
    (0x2000 ≤ c && c ≤ 0x200A) || c == 0x2028 || c == 0x2029 || c == 0x202F || c == 0x205F ||
    c == 0x3000

/-- `s.strip()` -/
def strip (s : PyStr) : PyStr := (s.dropWhile isSpace).rdropWhile isSpace

theorem strip_eq_self_iff (s : PyStr) :
    strip s = s ↔ (∀ c ∈ s.head?, isSpace c = false) ∧ (∀ c ∈ s.getLast?, isSpace c = false) := by
  have hsuffix := List.dropWhile_suffix isSpace (l := s)
  have hprefix := List.rdropWhile_prefix isSpace (s.dropWhile isSpace)
  constructor
  · intro h
    have hlen : (s.dropWhile isSpace).length = s.length := by
      have h₁ := hprefix.length_le
      have h₂ := hsuffix.length_le
      rw [show (s.dropWhile isSpace).rdropWhile isSpace = s from h] at h₁
      omega
    have hd : s.dropWhile isSpace = s := hsuffix.eq_of_length hlen
    have hr : s.rdropWhile isSpace = s := by simpa [strip, hd] using h
    refine ⟨fun c hc => ?_, fun c hc => ?_⟩
    · cases s with
      | nil => simp at hc
      | cons a s =>
        obtain rfl : a = c := by simpa using hc
        have := List.dropWhile_eq_self_iff.mp hd (by simp)
        rw [List.getElem_cons_zero] at this
        simpa using this
    · cases hs : s using List.reverseRecOn with
      | nil => simp [hs] at hc
      | append_singleton s a =>
        obtain rfl : a = c := by simpa [hs] using hc
        simpa [hs] using (List.rdropWhile_eq_self_iff.mp hr) (by simp [hs])
  · rintro ⟨hhead, hlast⟩
    have hd : s.dropWhile isSpace = s := by
      refine List.dropWhile_eq_self_iff.mpr fun hl => ?_
      have := hhead _ (List.head?_eq_some_head (List.ne_nil_of_length_pos hl))
      simpa [List.head_eq_getElem] using this
    have hr : s.rdropWhile isSpace = s := by
      refine List.rdropWhile_eq_self_iff.mpr fun hne => ?_
      simpa using hlast _ (List.getLast?_eq_some_getLast hne)
    rw [strip, hd, hr]

/-! ## Encoding -/

/-- A code point with a UTF-8 form: no surrogate. -/
def isScalar (c : ℕ) : Bool := c < 0xD800 || (0xE000 ≤ c && c ≤ 0x10FFFF)

/-- The number of bytes UTF-8 spends on one character. -/
def utf8Width (c : ℕ) : ℕ :=
  if c < 0x80 then 1 else if c < 0x800 then 2 else if c < 0x10000 then 3 else 4

/-- `len(s.encode('utf-8'))`, or `none` where encoding raises on a surrogate. -/
def utf8Length (s : PyStr) : Option ℕ :=
  if s.all isScalar then some ((s.map utf8Width).sum) else none

theorem isScalar_of_utf8Length {s : PyStr} {n : ℕ} (h : utf8Length s = some n) :
    ∀ c ∈ s, isScalar c := by
  unfold utf8Length at h
  split_ifs at h with hall
  exact List.all_eq_true.mp hall

/-! ## Drives of Windows paths -/

/-- Where `separator` first occurs in `s` at or after `start`, `s.find(separator, start)`. -/
def findFrom (separator : ℕ) (s : PyStr) (start : ℕ) : Option ℕ :=
  ((s.drop start).findIdx? (· == separator)).map (· + start)

/-- The drive `ntpath.splitroot` finds in a UNC path, `p` with its separators unified in
`normp`. -/
def uncDrive (p normp : PyStr) : PyStr :=
  let start := if (normp.take 8).map (fun c => if 97 ≤ c ∧ c ≤ 122 then c - 32 else c) =
    py "\\\\?\\UNC\\" then 8 else 2
  match findFrom backslash normp start with
  | none => p
  | some index =>
    match findFrom backslash normp (index + 1) with
    | none => p
    | some index₂ => p.take index₂

/-- `PureWindowsPath(p).drive` -/
def windowsDrive (p : PyStr) : PyStr :=
  let normp := p.map fun c => if c = slash then backslash else c
  if normp.take 1 = [backslash] then
    if (normp.drop 1).take 1 = [backslash] then uncDrive p normp else []
  else if (normp.drop 1).take 1 = [colon] then p.take 2
  else []

/-- The second character of a string that starts with a drive letter is a colon. -/
def hasDriveLetter (p : PyStr) : Bool := (p.drop 1).take 1 == [colon]

theorem windowsDrive_of_relative {p : PyStr} (hs : slash ∉ p.take 1) (hb : backslash ∉ p.take 1) :
    windowsDrive p ≠ [] ↔ hasDriveLetter p := by
  match p with
  | [] => simp [windowsDrive, hasDriveLetter]
  | [a] =>
    simp only [List.take_succ_cons, List.take_zero, List.mem_singleton] at hs hb
    simp [windowsDrive, hasDriveLetter, Ne.symm hs, Ne.symm hb]
  | a :: b :: p =>
    simp only [List.take_succ_cons, List.take_zero, List.mem_singleton] at hs hb
    by_cases hc : b = slash
    · have ha : a ≠ 47 := fun h => hs h.symm
      have ha' : a ≠ 92 := fun h => hb h.symm
      simp [windowsDrive, hasDriveLetter, hc, ha, ha', slash, backslash, colon]
    · simp [windowsDrive, hasDriveLetter, Ne.symm hs, Ne.symm hb, hc]

/-! ## The interpreter's tables -/

/-- What `unicodedata` and `str` know about characters, with the laws of NFC: it is idempotent,
and it never composes across, nor into, the separator. -/
class Unicode where
  /-- `unicodedata.normalize('NFC', s)` -/
  nfc : PyStr → PyStr
  /-- `s.lower()` -/
  lower : PyStr → PyStr
  /-- `s.isidentifier()` -/
  isIdentifier : PyStr → Bool
  nfc_nfc : ∀ s, nfc (nfc s) = nfc s
  split_nfc : ∀ s, split (nfc s) = (split s).map nfc

export Unicode (nfc lower isIdentifier)

/-- The tables restricted to ASCII: NFC leaves ASCII text alone. -/
@[reducible] def asciiUnicode : Unicode where
  nfc s := s
  lower s := s.map fun c => if 65 ≤ c ∧ c ≤ 90 then c + 32 else c
  isIdentifier s :=
    s ≠ [] ∧ s.all (fun c => (65 ≤ c ∧ c ≤ 90) ∨ (97 ≤ c ∧ c ≤ 122) ∨ c = 95 ∨ (48 ≤ c ∧ c ≤ 57)) ∧
      ¬ s.head?.any (fun c => 48 ≤ c ∧ c ≤ 57)
  nfc_nfc _ := rfl
  split_nfc _ := (List.map_id _).symm

/-- The Kelvin sign has the canonical form `K`. -/
def kelvin (c : ℕ) : ℕ := if c = 0x212A then 75 else c

/-- The tables restricted to ASCII and the Kelvin sign. -/
@[reducible] def kelvinUnicode : Unicode where
  nfc s := s.map kelvin
  lower s := asciiUnicode.lower (s.map kelvin)
  isIdentifier s := asciiUnicode.isIdentifier (s.map kelvin)
  nfc_nfc s := by
    rw [List.map_map]
    refine List.map_congr_left fun c _ => ?_
    simp only [Function.comp_apply, kelvin]
    split_ifs <;> rfl
  split_nfc s := by
    have hslash : ∀ segment ∈ (split s).map (List.map kelvin), slash ∉ segment := by
      intro segment hsegment hmem
      obtain ⟨source, hsource, rfl⟩ := List.mem_map.mp hsegment
      obtain ⟨c, hc, heq⟩ := List.mem_map.mp hmem
      unfold kelvin at heq
      split_ifs at heq
      · cases heq
      · exact slash_notMem_of_mem_split hsource (heq ▸ hc)
    have hjoin : ∀ segments : List PyStr,
        (join segments).map kelvin = join (segments.map (List.map kelvin)) := by
      intro segments
      induction segments with
      | nil => rfl
      | cons first rest ih =>
        cases rest with
        | nil => simp [join]
        | cons second rest =>
          simp only [join, List.intercalate_cons_cons, List.map_append, List.map_cons] at ih ⊢
          rw [ih]
          rfl
    conv_lhs => rw [← join_split s, hjoin]
    exact split_join hslash (by simp [split_ne_nil])

end NetBoxScripts
