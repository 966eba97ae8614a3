import Mathlib.Data.Nat.Notation
import Mathlib.Logic.Relation

/-!
# Programs that share a state

A program is a tree of atomic actions on a shared state, each of which may also depend on a
choice made outside (an answer of a backend). Between two of its actions the others may change
the state in any way their rely allows, and each of its own actions is to be a change its
guarantee allows.

## Main definitions

* `Prog`: programs, with `bind`, `attempt` and one-action statements
* `Stable`: assertions that the changes of others keep
* `wp`: what has to hold for a program to keep its guarantee and end in a postcondition

## Main results

* `wp_bind`, `wp_attempt`, `wp_stmt`, `wp_query`, `wp_foldlM`: the rules for each construct
* `wp_of_rely`: a program that has not begun its next action stays correct while others move
-/

namespace NetBoxScripts

/-- The number of a thread. -/
abbrev ThreadId := ℕ

/-- A program over a state `σ`, with outside choices `χ` and failures `ε`. -/
inductive Prog (σ χ ε α : Type) : Type 1
  | done (result : Except ε α)
  /-- One atomic action: nothing while it is blocked, else its answer and the state after it. -/
  | act {β : Type} (step : ThreadId → χ → σ → Option (β × σ)) (next : β → Prog σ χ ε α)

namespace Prog

variable {σ χ ε α β : Type}

/-- The second program goes on where the first returned. -/
def bind : Prog σ χ ε α → (α → Prog σ χ ε β) → Prog σ χ ε β
  | .done (.ok a), f => f a
  | .done (.error e), _ => .done (.error e)
  | .act step next, f => .act step fun b => (next b).bind f

instance : Monad (Prog σ χ ε) where
  pure a := .done (.ok a)
  bind := Prog.bind

/-- A program that fails. -/
def raise (e : ε) : Prog σ χ ε α := .done (.error e)

/-- The program, with its failure as an answer. -/
def attempt : Prog σ χ ε α → Prog σ χ ε (Except ε α)
  | .done result => .done (.ok result)
  | .act step next => .act step fun b => (next b).attempt

/-- The program that goes on with a result. -/
def ofExcept (result : Except ε α) : Prog σ χ ε α := .done result

/-- A program of one action, which answers or fails. -/
def stmt (step : ThreadId → χ → σ → Option (Except ε α × σ)) : Prog σ χ ε α := .act step .done

/-- A program of one action that reads. -/
def query (read : σ → α) : Prog σ χ ε α := stmt fun _ _ s => some (.ok (read s), s)

/-- The body, and after it the cleanup, whether or not the body failed. -/
def finallyDo (body : Prog σ χ ε α) (cleanup : Prog σ χ ε Unit) : Prog σ χ ε α := do
  let result ← body.attempt
  cleanup
  ofExcept result

end Prog

/-- What each thread may change in one step. -/
abbrev Changes (σ : Type) := ThreadId → σ → σ → Prop

section Logic

variable {σ χ ε α β : Type} (change : Changes σ)

/-- A step of a thread other than `t`. -/
def OthersStep (t : ThreadId) (s s' : σ) : Prop := ∃ u, u ≠ t ∧ change u s s'

/-- What others may have done between two actions of `t`. -/
def Rely (t : ThreadId) : σ → σ → Prop := Relation.ReflTransGen (OthersStep change t)

/-- An assertion of `t` that one step of another thread keeps. -/
def Stable (t : ThreadId) (assertion : σ → Prop) : Prop :=
  ∀ u s s', u ≠ t → change u s s' → assertion s → assertion s'

variable {change} {t : ThreadId} {assertion : σ → Prop} {s s' : σ}

theorem Rely.single {u : ThreadId} (hne : u ≠ t) (h : change u s s') : Rely change t s s' :=
  Relation.ReflTransGen.single ⟨u, hne, h⟩

theorem Stable.rely (h : Stable change t assertion) (hrely : Rely change t s s')
    (hs : assertion s) : assertion s' := by
  induction hrely with
  | refl => exact hs
  | tail _ hstep ih =>
    obtain ⟨u, hne, hchange⟩ := hstep
    exact h u _ _ hne hchange ih

theorem Stable.and {other : σ → Prop} (h : Stable change t assertion)
    (h' : Stable change t other) : Stable change t fun s => assertion s ∧ other s :=
  fun u s s' hne hchange hs => ⟨h u s s' hne hchange hs.1, h' u s s' hne hchange hs.2⟩

theorem Stable.const (p : Prop) : Stable change t fun _ : σ => p := fun _ _ _ _ _ hp => hp

variable (change t) (guar : σ → σ → Prop)

/-- From `s` on, whatever others do in between, each action of the program is a step of the
guarantee, and the program ends with a result and a state of the postcondition. -/
def wp : Prog σ χ ε α → (Except ε α → σ → Prop) → σ → Prop
  | .done result, post, s => post result s
  | .act step next, post, s => ∀ s', Rely change t s s' → ∀ c b s'', step t c s' = some (b, s'') →
      guar s' s'' ∧ wp (next b) post s''

variable {change t guar}

/-! ## The rules -/

/-- What follows a program that ends, by how it ended. -/
def andThen (next : α → σ → Prop) (failed : ε → σ → Prop) : Except ε α → σ → Prop
  | .ok a, s => next a s
  | .error e, s => failed e s

@[simp] theorem andThen_ok {next : α → σ → Prop} {failed : ε → σ → Prop} {a : α} :
    andThen next failed (.ok a) = next a := rfl

@[simp] theorem andThen_error {next : α → σ → Prop} {failed : ε → σ → Prop} {e : ε} :
    andThen next failed (.error e) = failed e := rfl

@[simp] theorem wp_pure {a : α} {post : Except ε α → σ → Prop} :
    wp change t guar (pure a : Prog σ χ ε α) post s = post (.ok a) s := rfl

@[simp] theorem wp_raise {e : ε} {post : Except ε α → σ → Prop} :
    wp change t guar (.raise e : Prog σ χ ε α) post s = post (.error e) s := rfl

@[simp] theorem wp_ofExcept {result : Except ε α} {post : Except ε α → σ → Prop} :
    wp change t guar (.ofExcept result : Prog σ χ ε α) post s = post result s := rfl

@[simp] theorem wp_bind {prog : Prog σ χ ε α} {f : α → Prog σ χ ε β}
    {post : Except ε β → σ → Prop} :
    wp change t guar (prog >>= f) post s =
      wp change t guar prog
        (andThen (fun a => wp change t guar (f a) post) fun e => post (.error e)) s := by
  change wp change t guar (prog.bind f) post s = _
  induction prog generalizing s with
  | done result => cases result <;> rfl
  | act step next ih => simp only [Prog.bind, wp, ih]

@[simp] theorem wp_attempt {prog : Prog σ χ ε α} {post : Except ε (Except ε α) → σ → Prop} :
    wp change t guar prog.attempt post s = wp change t guar prog (fun r => post (.ok r)) s := by
  induction prog generalizing s with
  | done result => rfl
  | act step next ih => simp only [Prog.attempt, wp, ih]

theorem wp_mono {prog : Prog σ χ ε α} {post post' : Except ε α → σ → Prop}
    (h : ∀ r s, post r s → post' r s) (hs : wp change t guar prog post s) :
    wp change t guar prog post' s := by
  induction prog generalizing s with
  | done result => exact h result s hs
  | act step next ih =>
    intro s' hrely c b s'' hstep
    obtain ⟨hguar, hnext⟩ := hs s' hrely c b s'' hstep
    exact ⟨hguar, ih b hnext⟩

/-- A program at its start is as correct after the others moved. -/
theorem wp_of_rely {step : ThreadId → χ → σ → Option (β × σ)} {next : β → Prog σ χ ε α}
    {post : Except ε α → σ → Prop} (hs : wp change t guar (.act step next) post s)
    (hrely : Rely change t s s') : wp change t guar (.act step next) post s' :=
  fun s₁ hrely₁ => hs s₁ (hrely.trans hrely₁)

/-- One action: under an assertion that others keep, each outcome is a step of the guarantee. -/
theorem wp_stmt {step : ThreadId → χ → σ → Option (Except ε α × σ)}
    {post : Except ε α → σ → Prop} (hstable : Stable change t assertion) (hs : assertion s)
    (h : ∀ s', assertion s' → ∀ c r s'', step t c s' = some (r, s'') →
      guar s' s'' ∧ post r s'') :
    wp change t guar (.stmt step) post s := by
  intro s' hrely c r s'' hstep
  exact h s' (hstable.rely hrely hs) c r s'' hstep

/-- One action that reads. -/
theorem wp_query {read : σ → α} {post : Except ε α → σ → Prop} (hguar : ∀ s, guar s s)
    (hstable : Stable change t assertion) (hs : assertion s)
    (h : ∀ s', assertion s' → post (.ok (read s')) s') :
    wp change t guar (.query read : Prog σ χ ε α) post s := by
  refine wp_stmt hstable hs fun s' hs' c r s'' hstep => ?_
  cases hstep
  exact ⟨hguar s', h s' hs'⟩

/-- A body and its cleanup. -/
theorem wp_finallyDo {body : Prog σ χ ε α} {cleanup : Prog σ χ ε Unit}
    {post : Except ε α → σ → Prop}
    (h : wp change t guar body (fun r => wp change t guar cleanup
      (andThen (fun _ => post r) fun e => post (.error e))) s) :
    wp change t guar (body.finallyDo cleanup) post s := by
  unfold Prog.finallyDo
  rw [wp_bind, wp_attempt]
  refine wp_mono (fun r s₁ h₁ => ?_) h
  rw [andThen_ok, wp_bind]
  exact wp_mono (fun r' s₂ h₂ => by cases r' <;> exact h₂) h₁

/-- A fold over a list, with an invariant that knows what is done, what is left and what was
gathered. -/
theorem wp_foldlM {l : List α} {body : β → α → Prog σ χ ε β} {init : β}
    {post : Except ε β → σ → Prop} (inv : List α → List α → β → σ → Prop)
    (hbody : ∀ before a after b s, inv before (a :: after) b s → wp change t guar (body b a)
      (andThen (fun b' => inv (before ++ [a]) after b') fun e => post (.error e)) s)
    (hend : ∀ b s, inv l [] b s → post (.ok b) s) (hs : inv [] l init s) :
    wp change t guar (l.foldlM body init) post s := by
  have hloop : ∀ before after b s, before ++ after = l → inv before after b s →
      wp change t guar (after.foldlM body b) post s := by
    intro before after
    induction after generalizing before with
    | nil =>
      intro b s hl hinv
      rw [List.append_nil] at hl
      subst hl
      exact hend b s hinv
    | cons a after ih =>
      intro b s hl hinv
      rw [List.foldlM_cons, wp_bind]
      refine wp_mono (fun r s₁ h₁ => ?_) (hbody before a after b s hinv)
      cases r with
      | ok b' => exact ih (before ++ [a]) b' s₁ (by simpa using hl) h₁
      | error e => exact h₁
  exact hloop [] l init s rfl hs

/-- A loop is a fold that gathers nothing. -/
theorem Prog.forM_eq_foldlM (l : List α) (body : α → Prog σ χ ε Unit) :
    l.forM body = l.foldlM (fun _ a => body a) () := by
  induction l with
  | nil => rfl
  | cons a l ih =>
    show (body a >>= fun _ => l.forM body) = _
    rw [List.foldlM_cons, ih]

/-- A loop over a list, with an invariant that knows what is done and what is left. -/
theorem wp_forM {l : List α} {body : α → Prog σ χ ε Unit} {post : Except ε Unit → σ → Prop}
    (inv : List α → List α → σ → Prop)
    (hbody : ∀ before a after s, inv before (a :: after) s → wp change t guar (body a)
      (andThen (fun _ => inv (before ++ [a]) after) fun e => post (.error e)) s)
    (hend : ∀ s, inv l [] s → post (.ok ()) s) (hs : inv [] l s) :
    wp change t guar (l.forM body) post s := by
  rw [Prog.forM_eq_foldlM]
  exact wp_foldlM (fun before after _ => inv before after)
    (fun before a after _ => hbody before a after) (fun _ => hend) hs

end Logic

end NetBoxScripts
