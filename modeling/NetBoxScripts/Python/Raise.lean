import Mathlib.Data.List.Forall2

/-!
# Raising

A call that may raise is an `Except`; these are the rules for one that returned.

## Main results

* `Except.bind_eq_ok_iff`: a sequence returned when both its parts did
* `List.foldlM_preserves`: what each turn of a loop preserves, the loop preserves
* `List.foldlM_collects`: what a loop has collected, when its end says that no turn was skipped
-/

universe u v w

/-- A sequence returned when both its parts did. -/
theorem Except.bind_eq_ok_iff {ε : Type w} {α β : Type u} {x : Except ε α} {f : α → Except ε β}
    {b : β} : x >>= f = .ok b ↔ ∃ a, x = .ok a ∧ f a = .ok b := by
  cases x with
  | error e => simp [bind, Except.bind]
  | ok a => simp [bind, Except.bind]

namespace List

variable {ε : Type w} {α : Type v} {β : Type u} {f : β → α → Except ε β} {p : β → Prop}
  {l : List α} {b b' : β}

theorem foldlM_preserves (hstep : ∀ b a b', f b a = .ok b' → p b → p b')
    (h : l.foldlM f b = .ok b') (hp : p b) : p b' := by
  induction l generalizing b with
  | nil =>
    obtain rfl : b = b' := by simpa [pure, Except.pure] using h
    exact hp
  | cons a l ih =>
    rw [foldlM_cons] at h
    obtain ⟨b₁, h₁, h⟩ := Except.bind_eq_ok_iff.mp h
    exact ih h (hstep b a b₁ h₁ hp)

/-- A loop whose end satisfies `p`, which only a turn that yields something preserves backwards,
has yielded something at every turn. -/
theorem foldlM_collects {γ : Type*} {rel : α → γ → Prop} (p : β → Prop) (collect : β → List γ)
    (hstep : ∀ b a b', f b a = .ok b' → p b' →
      p b ∧ ∃ c, rel a c ∧ collect b' = collect b ++ [c])
    (h : l.foldlM f b = .ok b') (hp : p b') :
    p b ∧ ∃ cs, Forall₂ rel l cs ∧ collect b' = collect b ++ cs := by
  induction l generalizing b with
  | nil =>
    obtain rfl : b = b' := by simpa [pure, Except.pure] using h
    exact ⟨hp, [], .nil, by simp⟩
  | cons a l ih =>
    rw [foldlM_cons] at h
    obtain ⟨b₁, h₁, h⟩ := Except.bind_eq_ok_iff.mp h
    obtain ⟨hp₁, cs, hcs, he⟩ := ih h
    obtain ⟨hpb, c, hc, hec⟩ := hstep b a b₁ h₁ hp₁
    exact ⟨hpb, c :: cs, .cons hc hcs, by simp [he, hec]⟩

/-- Each element of the second list stands opposite one of the first. -/
theorem Forall₂.exists_left {γ : Type*} {rel : α → γ → Prop} {cs : List γ} {c : γ}
    (h : Forall₂ rel l cs) (hc : c ∈ cs) : ∃ a ∈ l, rel a c := by
  induction h with
  | nil => simp at hc
  | cons hac _ ih =>
    rcases mem_cons.mp hc with rfl | hc
    · exact ⟨_, mem_cons_self, hac⟩
    · obtain ⟨a, ha, hr⟩ := ih hc
      exact ⟨a, mem_cons_of_mem _ ha, hr⟩

/-- Each element of the first list stands opposite one of the second. -/
theorem Forall₂.exists_right {γ : Type*} {rel : α → γ → Prop} {cs : List γ} {a : α}
    (h : Forall₂ rel l cs) (ha : a ∈ l) : ∃ c ∈ cs, rel a c :=
  h.flip.exists_left ha

end List
