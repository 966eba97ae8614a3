import Mathlib.Logic.Relation

/-!
# Paths that repeat nothing

A depth-first search that is guarded by the nodes of its current path follows the paths on which
no node comes twice. It misses nothing: a path that comes back to a node can leave out the loop.

## Main definitions

* `Avoiding step target seen a`: a path from `a` to a target, without a repetition and without
  the nodes seen

## Main results

* `Avoiding.mono`: a path that avoids more nodes avoids fewer
* `Avoiding.avoid_or`: a path avoids one more node, or has a path from that node
* `avoiding_nil_iff`: the targets of such paths are those of all paths
-/

namespace NetBoxScripts

variable {α : Type*} {step : α → α → Prop} {target : α → Prop} {seen seen' : List α} {a b : α}

/-- A path to a target on which no node comes twice and none that was seen. -/
inductive Avoiding (step : α → α → Prop) (target : α → Prop) : List α → α → Prop
  | arrive {seen : List α} {a : α} (hunseen : a ∉ seen) (htarget : target a) :
    Avoiding step target seen a
  | step {seen : List α} {a b : α} (hunseen : a ∉ seen) (hstep : step a b)
    (hrest : Avoiding step target (a :: seen) b) : Avoiding step target seen a

namespace Avoiding

theorem mono (h : Avoiding step target seen a) (hsub : seen' ⊆ seen) :
    Avoiding step target seen' a := by
  induction h generalizing seen' with
  | arrive hunseen htarget => exact .arrive (fun hmem => hunseen (hsub hmem)) htarget
  | step hunseen hstep _ ih =>
    exact .step (fun hmem => hunseen (hsub hmem)) hstep (ih (List.cons_subset_cons _ hsub))

/-- **A loop can be left out**: a path avoids a further node, or goes through it, and what is left
of it there is a path from that node. -/
theorem avoid_or (h : Avoiding step target seen b) (a : α) :
    Avoiding step target (a :: seen) b ∨ Avoiding step target seen a := by
  induction h with
  | @arrive seen b hunseen htarget =>
    by_cases heq : b = a
    · subst heq
      exact .inr (.arrive hunseen htarget)
    · exact .inl (.arrive (by simp [heq, hunseen]) htarget)
  | @step seen b c hunseen hstep hrest ih =>
    by_cases heq : b = a
    · subst heq
      exact .inr (.step hunseen hstep hrest)
    · rcases ih with havoids | hthrough
      · refine .inl (.step (by simp [heq, hunseen]) hstep ?_)
        exact havoids.mono (by simp)
      · exact .inr (hthrough.mono (List.subset_cons_self _ _))

/-- A step to the start of a path is the start of a path. -/
theorem of_step (h : Avoiding step target seen b) (hunseen : a ∉ seen) (hstep : step a b) :
    Avoiding step target seen a := by
  rcases h.avoid_or a with havoids | hthrough
  · exact .step hunseen hstep havoids
  · exact hthrough

theorem reaches (h : Avoiding step target seen a) :
    ∃ b, Relation.ReflTransGen step a b ∧ target b := by
  induction h with
  | @arrive _ a _ htarget => exact ⟨a, .refl, htarget⟩
  | step _ hstep _ ih =>
    obtain ⟨b, hreaches, htarget⟩ := ih
    exact ⟨b, hreaches.head hstep, htarget⟩

end Avoiding

/-- **Nothing is missed**: some path leads to a target if and only if one without repetitions
does. -/
theorem avoiding_nil_iff :
    Avoiding step target [] a ↔ ∃ b, Relation.ReflTransGen step a b ∧ target b := by
  constructor
  · exact Avoiding.reaches
  · rintro ⟨b, hreaches, htarget⟩
    induction hreaches using Relation.ReflTransGen.head_induction_on with
    | refl => exact .arrive List.not_mem_nil htarget
    | head hstep _ ih => exact ih.of_step List.not_mem_nil hstep

end NetBoxScripts
