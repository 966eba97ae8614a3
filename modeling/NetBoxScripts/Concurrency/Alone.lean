import NetBoxScripts.Concurrency.Program

/-!
# Programs that nobody disturbs

One thread that runs a program on a state that nobody else changes, with outside choices at each
of its actions.

## Main definitions

* `Reach`: what is left of a program, and the state, after some of its actions
* `Prog.runWith`: a run to the end, with listed choices
* `Succeeds`: whatever the allowed choices are, the program is never stuck and ends as it should

## Main results

* `wp_act_undisturbed`, `wp_undisturbed_and`: the rules where nobody else moves
* `Reach.ends`, `Reach.invariant`: what `wp` says of such runs
* `Succeeds.runWith`: a program that succeeds runs to its end
-/

namespace NetBoxScripts

variable {σ χ ε α β : Type} {t : ThreadId} {allowed : χ → Prop} {guar : σ → σ → Prop}
  {post : Except ε α → σ → Prop} {prog : Prog σ χ ε α} {s s' : σ}

/-- Nobody else changes anything. -/
def Undisturbed (_ : ThreadId) (_ _ : σ) : Prop := False

theorem stable_undisturbed (assertion : σ → Prop) : Stable Undisturbed t assertion :=
  fun _ _ _ _ h => h.elim

theorem rely_undisturbed (h : Rely Undisturbed t s s') : s' = s := by
  induction h with
  | refl => rfl
  | tail _ hstep _ =>
    obtain ⟨u, -, h⟩ := hstep
    exact h.elim

/-- A read finds the state as it is. -/
theorem wp_query_undisturbed {read : σ → α} {next : α → Prog σ χ ε β}
    {post : Except ε β → σ → Prop} (hguar : ∀ s, guar s s)
    (h : wp Undisturbed t guar (next (read s)) post s) :
    wp Undisturbed t guar (Prog.query read >>= next) post s := by
  rw [wp_bind]
  refine wp_query hguar (stable_undisturbed (· = s)) rfl fun s' hs => ?_
  subst hs
  exact h

/-- An action is taken in the state as it is. -/
theorem wp_act_undisturbed {step : ThreadId → χ → σ → Option (β × σ)} {next : β → Prog σ χ ε α}
    (h : ∀ c b s', step t c s = some (b, s') → guar s s' ∧
      wp Undisturbed t guar (next b) post s') :
    wp Undisturbed t guar (.act step next) post s := by
  intro s' hrely
  rw [rely_undisturbed hrely]
  exact h

/-- A weaker guarantee. -/
theorem wp_guar_mono {change : Changes σ} {guar' : σ → σ → Prop}
    (himp : ∀ s s', guar s s' → guar' s s') (h : wp change t guar prog post s) :
    wp change t guar' prog post s := by
  induction prog generalizing s with
  | done result => exact h
  | act step next ih =>
    intro s' hrely c b s'' hstep
    obtain ⟨hguar, hnext⟩ := h s' hrely c b s'' hstep
    exact ⟨himp s' s'' hguar, ih b hnext⟩

/-- What holds of a program whatever others do also holds where they rest. -/
theorem wp_undisturbed_and {change : Changes σ} {guar' : σ → σ → Prop}
    {post' : Except ε α → σ → Prop} (h : wp Undisturbed t guar prog post s)
    (h' : wp change t guar' prog post' s) :
    wp Undisturbed t guar prog (fun r s => post r s ∧ post' r s) s := by
  induction prog generalizing s with
  | done result => exact ⟨h, h'⟩
  | act step next ih =>
    refine wp_act_undisturbed fun c b s' hstep => ?_
    obtain ⟨hguar, hnext⟩ := h s .refl c b s' hstep
    exact ⟨hguar, ih b hnext (h' s .refl c b s' hstep).2⟩

variable (t) in
/-- What is left of a program after some of its actions, and the state. -/
inductive Reach (prog : Prog σ χ ε α) (s : σ) : Prog σ χ ε α → σ → Prop
  | start : Reach prog s prog s
  | act {γ : Type} {step : ThreadId → χ → σ → Option (γ × σ)} {next : γ → Prog σ χ ε α}
      {s' s'' : σ} {b : γ} (h : Reach prog s (.act step next) s') (choice : χ)
      (hstep : step t choice s' = some (b, s'')) : Reach prog s (next b) s''

/-- What is left of a program that is correct, also among others, is so where these rest. -/
theorem Reach.wp {change : Changes σ} {prog' : Prog σ χ ε α} (h : Reach t prog s prog' s')
    (hwp : wp change t guar prog post s) : wp change t guar prog' post s' := by
  induction h with
  | start => exact hwp
  | act _ choice hstep ih => exact (ih _ .refl choice _ _ hstep).2

/-- A correct program ends in its postcondition. -/
theorem Reach.ends {result : Except ε α} (h : Reach t prog s (.done result) s')
    (hwp : NetBoxScripts.wp Undisturbed t guar prog post s) : post result s' := h.wp hwp

/-- What the guarantee leaves holds after each action. -/
theorem Reach.invariant {inv : σ → Prop} {prog' : Prog σ χ ε α} (h : Reach t prog s prog' s')
    (hwp : NetBoxScripts.wp Undisturbed t (fun _ => inv) prog post s) (hs : inv s) : inv s' := by
  cases h with
  | start => exact hs
  | act h choice hstep => exact (h.wp hwp _ .refl choice _ _ hstep).1

/-- A run to the end, with a choice for each action; none where a choice is not possible. -/
def Prog.runWith (t : ThreadId) : Prog σ χ ε α → (ℕ → χ) → σ → Option (Except ε α × σ)
  | .done result, _, s => some (result, s)
  | .act step next, choices, s =>
    (step t (choices 0) s).bind fun answer =>
      (next answer.1).runWith t (fun i => choices (i + 1)) answer.2

/-- A run to the end is one of actions. -/
theorem Reach.of_runWith {prog' : Prog σ χ ε α} {choices : ℕ → χ} {r : Except ε α}
    (h : Reach t prog s prog' s') {s'' : σ} (hrun : prog'.runWith t choices s' = some (r, s'')) :
    Reach t prog s (.done r) s'' := by
  induction prog' generalizing s' choices with
  | done result =>
    cases hrun
    exact h
  | act step next ih =>
    obtain ⟨⟨b, s₁⟩, hstep, hrun⟩ := Option.bind_eq_some_iff.mp hrun
    exact ih b (h.act _ hstep) hrun

variable (t allowed) in
/-- Each action can be taken with every allowed choice, and the program ends as it should. -/
def Succeeds : Prog σ χ ε α → (Except ε α → σ → Prop) → σ → Prop
  | .done result, post, s => post result s
  | .act step next, post, s => ∀ c, allowed c → ∃ b s', step t c s = some (b, s') ∧
      Succeeds (next b) post s'

theorem Succeeds.runWith (h : Succeeds t allowed prog post s) {choices : ℕ → χ}
    (hchoices : ∀ i, allowed (choices i)) :
    ∃ r s', prog.runWith t choices s = some (r, s') ∧ post r s' := by
  induction prog generalizing s choices with
  | done result => exact ⟨result, s, rfl, h⟩
  | act step next ih =>
    obtain ⟨b, s', hstep, hnext⟩ := h (choices 0) (hchoices 0)
    obtain ⟨r, s'', hrun, hpost⟩ := ih b hnext fun i => hchoices (i + 1)
    exact ⟨r, s'', by rw [Prog.runWith, hstep]; exact hrun, hpost⟩

theorem Succeeds.mono {post' : Except ε α → σ → Prop} (h : ∀ r s, post r s → post' r s)
    (hs : Succeeds t allowed prog post s) : Succeeds t allowed prog post' s := by
  induction prog generalizing s with
  | done result => exact h result s hs
  | act step next ih =>
    intro c hc
    obtain ⟨b, s', hstep, hnext⟩ := hs c hc
    exact ⟨b, s', hstep, ih b hnext⟩

/-- A program that succeeds also ends in what `wp` says of it. -/
theorem Succeeds.and_wp {post' : Except ε α → σ → Prop} (h : Succeeds t allowed prog post s)
    (hwp : wp Undisturbed t guar prog post' s) :
    Succeeds t allowed prog (fun r s => post r s ∧ post' r s) s := by
  induction prog generalizing s with
  | done result => exact ⟨h, hwp⟩
  | act step next ih =>
    intro c hc
    obtain ⟨b, s', hstep, hnext⟩ := h c hc
    exact ⟨b, s', hstep, ih b hnext (hwp s .refl c b s' hstep).2⟩

@[simp] theorem succeeds_pure {a : α} :
    Succeeds t allowed (pure a : Prog σ χ ε α) post s = post (.ok a) s := rfl

theorem succeeds_bind {f : α → Prog σ χ ε β} {post : Except ε β → σ → Prop} :
    Succeeds t allowed (prog >>= f) post s = Succeeds t allowed prog
      (andThen (fun a => Succeeds t allowed (f a) post) fun e => post (.error e)) s := by
  change Succeeds t allowed (prog.bind f) post s = _
  induction prog generalizing s with
  | done result => cases result <;> rfl
  | act step next ih => simp only [Prog.bind, Succeeds, ih]

theorem succeeds_attempt {post : Except ε (Except ε α) → σ → Prop} :
    Succeeds t allowed prog.attempt post s =
      Succeeds t allowed prog (fun r => post (.ok r)) s := by
  induction prog generalizing s with
  | done result => rfl
  | act step next ih => simp only [Prog.attempt, Succeeds, ih]

/-- A fold over a list, with an invariant that knows what is done and what is left. -/
theorem succeeds_foldlM {l : List α} {body : β → α → Prog σ χ ε β} {init : β}
    {post : Except ε β → σ → Prop} (inv : List α → List α → β → σ → Prop)
    (hbody : ∀ before a after b s, inv before (a :: after) b s →
      Succeeds t allowed (body b a) (andThen (fun b' => inv (before ++ [a]) after b')
        fun e => post (.error e)) s)
    (hend : ∀ b s, inv l [] b s → post (.ok b) s) (hs : inv [] l init s) :
    Succeeds t allowed (l.foldlM body init) post s := by
  have hloop : ∀ before after b s, before ++ after = l → inv before after b s →
      Succeeds t allowed (after.foldlM body b) post s := by
    intro before after
    induction after generalizing before with
    | nil =>
      intro b s hl hinv
      rw [List.append_nil] at hl
      subst hl
      exact hend b s hinv
    | cons a after ih =>
      intro b s hl hinv
      rw [List.foldlM_cons, succeeds_bind]
      refine Succeeds.mono (fun r s₁ h₁ => ?_) (hbody before a after b s hinv)
      cases r with
      | ok b' => exact ih (before ++ [a]) b' s₁ (by simpa using hl) h₁
      | error e => exact h₁
  exact hloop [] l init s rfl hs

/-- A loop over a list, with an invariant that knows what is done and what is left. -/
theorem succeeds_forM {l : List α} {body : α → Prog σ χ ε Unit} {post : Except ε Unit → σ → Prop}
    (inv : List α → List α → σ → Prop)
    (hbody : ∀ before a after s, inv before (a :: after) s → Succeeds t allowed (body a)
      (andThen (fun _ => inv (before ++ [a]) after) fun e => post (.error e)) s)
    (hend : ∀ s, inv l [] s → post (.ok ()) s) (hs : inv [] l s) :
    Succeeds t allowed (l.forM body) post s := by
  rw [Prog.forM_eq_foldlM]
  exact succeeds_foldlM (fun before after _ => inv before after)
    (fun before a after _ => hbody before a after) (fun _ => hend) hs

end NetBoxScripts
