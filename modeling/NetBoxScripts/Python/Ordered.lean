import Mathlib.Data.List.Induction
import Mathlib.Data.List.Nodup

/-!
# First appearances

A mapping that is only ever given new keys lists each key where it first appeared.

## Main definitions

* `keepFirst key l`: the elements of `l` whose key no earlier element has

## Main results

* `keepFirst_concat`: one more element is kept when its key is new
* `nodup_keepFirst`, `mem_map_keepFirst`: every key is kept exactly once
-/

namespace NetBoxScripts

variable {α β : Type*} [DecidableEq β] (key : α → β)

/-- The elements whose key no earlier element has. -/
def keepFirst (l : List α) : List α :=
  l.foldl (fun kept a => if key a ∈ kept.map key then kept else kept ++ [a]) []

@[simp] theorem keepFirst_nil : keepFirst key [] = [] := rfl

theorem keepFirst_concat (l : List α) (a : α) :
    keepFirst key (l ++ [a]) =
      if key a ∈ (keepFirst key l).map key then keepFirst key l else keepFirst key l ++ [a] := by
  simp [keepFirst, List.foldl_append]

theorem mem_map_keepFirst (l : List α) (k : β) :
    k ∈ (keepFirst key l).map key ↔ k ∈ l.map key := by
  induction l using List.reverseRecOn with
  | nil => simp
  | append_singleton l a ih =>
    rw [keepFirst_concat]
    split_ifs with ha
    · rw [ih, List.map_append, List.mem_append]
      refine ⟨.inl, fun h => h.elim id fun hk => ?_⟩
      obtain rfl : k = key a := by simpa using hk
      exact ih.mp ha
    · simp only [List.map_append, List.mem_append, ih]

theorem nodup_keepFirst (l : List α) : ((keepFirst key l).map key).Nodup := by
  induction l using List.reverseRecOn with
  | nil => simp
  | append_singleton l a ih =>
    rw [keepFirst_concat]
    split_ifs with ha
    · exact ih
    · rw [List.map_append, List.nodup_append]
      refine ⟨ih, by simp, fun k hk k' hk' heq => ha ?_⟩
      obtain rfl : k' = key a := by simpa using hk'
      exact heq ▸ hk

theorem keepFirst_sublist (l : List α) : (keepFirst key l).Sublist l := by
  induction l using List.reverseRecOn with
  | nil => simp
  | append_singleton l a ih =>
    rw [keepFirst_concat]
    split_ifs
    · exact ih.trans (List.sublist_append_left l [a])
    · exact ih.append (List.Sublist.refl [a])

end NetBoxScripts
