import NetBoxScripts.Migration.Permissions

/-!
# Moving Event Rules

`repoint_event_rules` (`references.py`) points every captured Event Rule at the plugin and puts
the moved ones back into service. While a rule is unresolved its step stays open, and a later
pass goes over all of them again, whatever an operator has edited in between.

## Main definitions

* `repointRule`: one rule, in one transaction, and what it writes
* `RuleState.next`: an operator's edit, or a pass
* `RulesUndisturbed`: the rules that were restored are as a pass leaves them
* `ReachedUndisturbed`: the states of the runs whose edits leave them so

## Main results

* `writes_eq_nil_iff`: what a transaction finds when it writes nothing
* `passes_leave_restored_rules`: in those runs no pass writes a restored rule
* `restored_rule_enabled_again`: a rule that an operator disabled is enabled by the next pass
-/

namespace NetBoxScripts

/-! ## Rules and the journal -/

/-- An Event Rule: its action and the object types it watches. -/
structure EventRule where
  enabled : Bool
  actionType : PyStr
  actionObjectType : Option PyStr
  actionObjectId : Option Id
  objectTypes : List PyStr
  deriving DecidableEq, Repr

/-- What the journal holds of one rule. -/
structure RuleEntry where
  pk : Id
  name : PyStr
  enabled : Bool
  /-- Set where the action names the built-in feature. -/
  actionObjectId : Option Id
  actionObjectType : Option PyStr
  legacySourceTypes : List PyStr
  deriving DecidableEq, Repr

/-- The script row that a built-in script resolves to. -/
structure ResolvedScript where
  pk : Id
  isRetired : Bool
  text : PyStr
  deriving DecidableEq, Repr

/-- What one pass meets: the scripts that resolve and those the map covers, the errors of
`full_clean`, and how many rules it gets through. -/
structure RuleAttempt where
  resolved : Id → Option ResolvedScript
  mapped : Id → Bool
  fullClean : EventRule → Option PyStr
  reached : ℕ

/-- `ACTION_SLUG` -/
def actionSlug : PyStr := py "netbox_scripts.run"

/-- `LEGACY_SCRIPT_TYPE` -/
def legacyScriptType : PyStr := py "extras.script"

/-- What a transaction stores of a rule. -/
inductive RuleWrite
  | action
  | sources
  | enabled
  deriving DecidableEq, Repr

/-- The counts of a pass. -/
inductive RuleCount
  | actions
  | unresolved
  | withdrawn
  deriving DecidableEq, Repr

/-! ## One rule -/

/-- The rule with its action pointed at a script. -/
def EventRule.pointedAt (rule : EventRule) (script : ResolvedScript) : EventRule :=
  { rule with
    actionType := actionSlug
    actionObjectType := typeMap.lookup legacyScriptType
    actionObjectId := some script.pk }

/-- What `_repoint_action` returns, with the rule as it is stored then. -/
structure ActionOutcome where
  rule : EventRule
  moved : Bool
  counted : Option RuleCount
  refusal : Option PyStr

/-- `_repoint_action(rule, entry, resolved, plugin_types, mapped)` -/
def repointAction (a : RuleAttempt) (entry : RuleEntry) (rule : EventRule) : ActionOutcome :=
  match entry.actionObjectId with
  | none => ⟨rule, true, none, none⟩
  | some key =>
    if rule.actionType = actionSlug then ⟨rule, true, none, none⟩
    else if entry.actionObjectType ≠ none ∧ entry.actionObjectType ≠ some legacyScriptType then
      ⟨rule, false, some .withdrawn, some (py "Event rule \"" ++ entry.name ++
        py ("\" runs a built-in script module rather than a built-in Custom Script, which " ++
          "NetBox's own conversion to those rows was meant to rewrite and did not. It was left " ++
          "withdrawn, so repoint it or delete it by hand."))⟩
    else
      match a.resolved key with
      | none =>
        if a.mapped key then
          ⟨rule, false, some .unresolved, some (py "Event rule \"" ++ entry.name ++
            py "\" runs built-in Custom Script " ++ decimal key ++
            py ", which no Script resolves to, so it was left withdrawn.")⟩
        else
          ⟨rule, false, some .withdrawn, some (py "Event rule \"" ++ entry.name ++
            py "\" runs built-in Custom Script " ++ decimal key ++
            py (", whose class left its file, so no Script will ever replace it and the rule " ++
              "was left withdrawn. Delete it, or point it at a script yourself."))⟩
      | some script =>
        if script.isRetired then
          ⟨rule, false, some .unresolved, some (py "Event rule \"" ++ entry.name ++
            py "\" resolves to " ++ script.text ++
            py ", which is retired and can never run again, so the rule was left withdrawn.")⟩
        else
          match a.fullClean (rule.pointedAt script) with
          | some errors =>
            ⟨rule, false, some .unresolved, some (py "Event rule \"" ++ entry.name ++
              py "\" cannot be saved, so it was left withdrawn: " ++ errors ++
              py ". Correct or delete the rule, then run this pass again.")⟩
          | none => ⟨rule.pointedAt script, true, some .actions, none⟩

/-- The captured built-in types that the rule watches. -/
def watchedLegacy (entry : RuleEntry) (rule : EventRule) : List PyStr :=
  rule.objectTypes.filter fun label => label ∈ entry.legacySourceTypes ∧ label ∈ legacyTypes

/-- `_repoint_sources(rule, entry, plugin_types, counts)`, and whether it moved them. -/
def repointSources (entry : RuleEntry) (rule : EventRule) : EventRule × Bool :=
  let labels := entry.legacySourceTypes.filter (· ∈ legacyTypes)
  if watchedLegacy entry rule = [] then (rule, false)
  else
    let wanted := labels.map movedType
    ({ rule with
      objectTypes := rule.objectTypes.filter (· ∉ labels) ++
        (wanted.filter (· ∉ rule.objectTypes)).dedup }, true)

/-- What one transaction did. -/
structure RuleTransaction where
  entry : RuleEntry
  before : EventRule
  after : EventRule
  /-- Its action needs nothing further. -/
  moved : Bool
  writes : List RuleWrite
  counted : Option RuleCount
  refusal : Option PyStr

/-- The transaction of one rule. -/
def repointRule (a : RuleAttempt) (entry : RuleEntry) (rule : EventRule) : RuleTransaction :=
  let action := repointAction a entry rule
  let sources := repointSources entry action.rule
  -- only a fully moved rule, as one pointing at nothing would fail at dispatch
  let restores := action.moved && entry.enabled && !sources.1.enabled
  { entry := entry
    before := rule
    after := if restores then { sources.1 with enabled := true } else sources.1
    moved := action.moved
    writes := (if action.counted = some .actions then [.action] else []) ++
      (if sources.2 then [.sources] else []) ++ (if restores then [.enabled] else [])
    counted := action.counted
    refusal := action.refusal }

/-! ## Passes and edits -/

/-- The rules, whether the step is recorded, and what the passes so far have done. -/
structure RuleState where
  rules : Id → Option EventRule
  stepDone : Bool
  done : List RuleTransaction

/-- One pass over some captured rules: what it leaves of the rules, and its transactions. -/
def repointRules (a : RuleAttempt) : List RuleEntry → (Id → Option EventRule) →
    (Id → Option EventRule) × List RuleTransaction
  | [], rules => (rules, [])
  | entry :: rest, rules =>
    match rules entry.pk with
    | none => repointRules a rest rules
    | some rule =>
      let transaction := repointRule a entry rule
      let later := repointRules a rest (Function.update rules entry.pk (some transaction.after))
      (later.1, transaction :: later.2)

/-- The transactions of a pass over the captured rules. -/
def passTransactions (journal : List RuleEntry) (a : RuleAttempt) (state : RuleState) :
    List RuleTransaction :=
  if state.stepDone then [] else (repointRules a (journal.take a.reached) state.rules).2

/-- What happens to the rules: an operator rewrites any of them, or a pass runs. -/
inductive RuleEvent
  | edit (rules : Id → Option EventRule)
  | attempt (a : RuleAttempt)

/-- `repoint_event_rules(run)`, which leaves its step open while a rule is unresolved and can die
between two rules, or an edit. -/
def RuleState.next (journal : List RuleEntry) (state : RuleState) : RuleEvent → RuleState
  | .edit rules => { state with rules := rules }
  | .attempt a =>
    if state.stepDone then state
    else
      let pass := repointRules a (journal.take a.reached) state.rules
      { rules := pass.1
        stepDone := decide (journal.length ≤ a.reached) &&
          pass.2.all fun transaction => transaction.counted ≠ some .unresolved
        done := state.done ++ pass.2 }

/-! ## What a transaction does -/

section Transaction

variable {a : RuleAttempt} {entry : RuleEntry} {rule : EventRule}

/-- The action of a rule that needs nothing further. -/
def ActionSettled (entry : RuleEntry) (rule : EventRule) : Prop :=
  entry.actionObjectId = none ∨ rule.actionType = actionSlug

/-- A rule that names nothing captured of the built-in feature. -/
def AlreadyMoved (entry : RuleEntry) (rule : EventRule) : Prop :=
  ActionSettled entry rule ∧ watchedLegacy entry rule = []

/-- The action is settled, or is pointed at a script, or is refused. -/
theorem repointAction_cases (a : RuleAttempt) (entry : RuleEntry) (rule : EventRule) :
    (ActionSettled entry rule ∧ repointAction a entry rule = ⟨rule, true, none, none⟩) ∨
    ¬ ActionSettled entry rule ∧
      ((∃ script, repointAction a entry rule = ⟨rule.pointedAt script, true, some .actions, none⟩) ∨
      ∃ count refusal, count ≠ some RuleCount.actions ∧
        repointAction a entry rule = ⟨rule, false, count, refusal⟩) := by
  unfold repointAction ActionSettled
  cases entry.actionObjectId with
  | none => exact .inl ⟨.inl rfl, rfl⟩
  | some key =>
    by_cases hslug : rule.actionType = actionSlug
    · exact .inl ⟨.inr hslug, by simp only [if_pos hslug]⟩
    · refine .inr ⟨by simp [hslug], ?_⟩
      simp only [if_neg hslug]
      by_cases hmodule : entry.actionObjectType ≠ none ∧
          entry.actionObjectType ≠ some legacyScriptType
      · rw [if_pos hmodule]
        exact .inr ⟨_, _, by decide, rfl⟩
      · rw [if_neg hmodule]
        cases a.resolved key with
        | none =>
          cases a.mapped key
          · exact .inr ⟨_, _, by decide, rfl⟩
          · exact .inr ⟨_, _, by decide, rfl⟩
        | some script =>
          by_cases hretired : script.isRetired = true
          · simp only [if_pos hretired]
            exact .inr ⟨_, _, by decide, rfl⟩
          · simp only [if_neg hretired]
            cases a.fullClean (rule.pointedAt script) with
            | none => exact .inl ⟨script, rfl⟩
            | some errors => exact .inr ⟨_, _, by decide, rfl⟩

@[simp] theorem enabled_pointedAt (script : ResolvedScript) :
    (rule.pointedAt script).enabled = rule.enabled := rfl

@[simp] theorem watchedLegacy_pointedAt (script : ResolvedScript) :
    watchedLegacy entry (rule.pointedAt script) = watchedLegacy entry rule := rfl

@[simp] theorem enabled_repointSources :
    (repointSources entry rule).1.enabled = rule.enabled := by
  unfold repointSources
  split_ifs <;> rfl

@[simp] theorem actionType_repointSources :
    (repointSources entry rule).1.actionType = rule.actionType := by
  unfold repointSources
  split_ifs <;> rfl

theorem repointSources_moves : (repointSources entry rule).2 = true ↔
    watchedLegacy entry rule ≠ [] := by
  unfold repointSources
  split_ifs with hnone <;> simp [hnone]

theorem repointSources_of_nil (h : watchedLegacy entry rule = []) :
    repointSources entry rule = (rule, false) := if_pos h

/-- No captured built-in type is watched afterwards. -/
@[simp] theorem watchedLegacy_repointSources :
    watchedLegacy entry (repointSources entry rule).1 = [] := by
  unfold repointSources
  by_cases hnone : watchedLegacy entry rule = []
  · simp only [if_pos hnone]
    exact hnone
  · simp only [if_neg hnone]
    refine List.filter_eq_nil_iff.mpr fun label hmem => ?_
    rw [decide_eq_true_eq]
    rintro ⟨hcaptured, hlegacy⟩
    rcases List.mem_append.mp hmem with hkept | hadded
    · simp [hcaptured, hlegacy] at hkept
    · -- what is added is a plugin type
      rw [List.mem_dedup, List.mem_filter, List.mem_map] at hadded
      obtain ⟨⟨source, hsource, rfl⟩, -⟩ := hadded
      have hplugin := movedType_mem_pluginTypes (of_decide_eq_true (List.mem_filter.mp hsource).2)
      exact notMem_legacyTypes_of_plugin hplugin hlegacy

/-- **What a transaction finds when it writes nothing.** -/
theorem writes_eq_nil_iff : (repointRule a entry rule).writes = [] ↔
    watchedLegacy entry rule = [] ∧ (repointAction a entry rule).counted ≠ some .actions ∧
      (ActionSettled entry rule → entry.enabled = true → rule.enabled = true) := by
  unfold repointRule
  rcases repointAction_cases a entry rule with ⟨hsettled, haction⟩ |
    ⟨hopen, ⟨script, haction⟩ | ⟨count, refusal, hcount, haction⟩⟩
  · have hmoves := @repointSources_moves entry rule
    cases hsources : (repointSources entry rule).2 <;>
      cases hcaptured : entry.enabled <;> cases henabled : rule.enabled <;>
        simp_all
  · simp [haction]
  · have hmoves := @repointSources_moves entry rule
    cases hsources : (repointSources entry rule).2 <;> simp_all

/-- A rule that is found as a pass leaves it is not written. -/
theorem writes_of_alreadyMoved (h : AlreadyMoved entry rule)
    (henabled : entry.enabled = true → rule.enabled = true) :
    (repointRule a entry rule).writes = [] ∧ (repointRule a entry rule).after = rule := by
  have haction : repointAction a entry rule = ⟨rule, true, none, none⟩ := by
    rcases repointAction_cases a entry rule with ⟨-, haction⟩ | ⟨hopen, -⟩
    · exact haction
    · exact absurd h.1 hopen
  refine ⟨writes_eq_nil_iff.mpr ⟨h.2, by simp [haction], fun _ => henabled⟩, ?_⟩
  unfold repointRule
  rw [haction]
  simp only [repointSources_of_nil h.2]
  refine if_neg fun hrestores => ?_
  simp only [Bool.true_and, Bool.and_eq_true, Bool.not_eq_true'] at hrestores
  rw [henabled hrestores.1] at hrestores
  exact Bool.noConfusion hrestores.2

/-- A transaction that finishes a rule leaves it moved, and enabled if it was captured so. -/
theorem alreadyMoved_after (hmoved : (repointRule a entry rule).moved = true) :
    AlreadyMoved entry (repointRule a entry rule).after ∧
      (entry.enabled = true → (repointRule a entry rule).after.enabled = true) := by
  have hwatched : watchedLegacy entry (repointRule a entry rule).after = [] := by
    unfold repointRule
    simp only
    split_ifs
    · exact watchedLegacy_repointSources
    · exact watchedLegacy_repointSources
  have htype : (repointRule a entry rule).after.actionType =
      (repointAction a entry rule).rule.actionType := by
    unfold repointRule
    simp only
    split_ifs <;> simp
  have hsettled : ActionSettled entry (repointRule a entry rule).after := by
    unfold ActionSettled
    rw [htype]
    rcases repointAction_cases a entry rule with ⟨hsettled, haction⟩ |
      ⟨-, ⟨script, haction⟩ | ⟨count, refusal, -, haction⟩⟩
    · rw [haction]
      exact hsettled
    · rw [haction]
      exact .inr rfl
    · rw [show (repointRule a entry rule).moved = (repointAction a entry rule).moved from rfl,
        haction] at hmoved
      cases hmoved
  refine ⟨⟨hsettled, hwatched⟩, fun hcaptured => ?_⟩
  have haction : (repointAction a entry rule).moved = true := hmoved
  unfold repointRule
  simp only [haction, hcaptured, Bool.true_and]
  split_ifs with hdisabled
  · rfl
  · simpa using hdisabled

/-- A rule that a transaction does not finish still names the built-in feature. -/
theorem not_alreadyMoved_after (hmoved : (repointRule a entry rule).moved ≠ true) :
    ¬ AlreadyMoved entry (repointRule a entry rule).after := by
  have haction : (repointAction a entry rule).moved = false := Bool.eq_false_iff.mpr hmoved
  rcases repointAction_cases a entry rule with ⟨-, hsame⟩ |
    ⟨hopen, ⟨script, hsame⟩ | ⟨count, refusal, -, hsame⟩⟩
  · rw [hsame] at haction
    cases haction
  · rw [hsame] at haction
    cases haction
  · have hafter : (repointRule a entry rule).after = (repointSources entry rule).1 := by
      unfold repointRule
      rw [hsame]
      rfl
    rw [hafter]
    rintro ⟨hsettled, -⟩
    unfold ActionSettled at hsettled
    rw [actionType_repointSources] at hsettled
    exact hopen hsettled

/-- A transaction that enables a rule finishes it, and the rule was captured enabled. -/
theorem of_enabled_mem_writes (h : RuleWrite.enabled ∈ (repointRule a entry rule).writes) :
    (repointRule a entry rule).moved = true ∧ entry.enabled = true ∧ rule.enabled = false ∧
      (RuleWrite.action ∉ (repointRule a entry rule).writes →
        RuleWrite.sources ∉ (repointRule a entry rule).writes → AlreadyMoved entry rule) := by
  have hrule : (repointAction a entry rule).rule.enabled = rule.enabled := by
    rcases repointAction_cases a entry rule with ⟨-, haction⟩ |
      ⟨-, ⟨script, haction⟩ | ⟨count, refusal, -, haction⟩⟩ <;> rw [haction]
    exact enabled_pointedAt script
  have hrestores : ((repointAction a entry rule).moved && entry.enabled && !rule.enabled) =
      true := by
    unfold repointRule at h
    simp only [enabled_repointSources, hrule, List.mem_append] at h
    rcases h with (h | h) | h
    · split_ifs at h <;> simp at h
    · split_ifs at h <;> simp at h
    · by_contra hnot
      simp [hnot] at h
  simp only [Bool.and_eq_true, Bool.not_eq_true'] at hrestores
  obtain ⟨⟨hmoved, hcaptured⟩, hdisabled⟩ := hrestores
  refine ⟨hmoved, hcaptured, hdisabled, fun haction hsources => ?_⟩
  unfold repointRule at haction hsources
  rcases repointAction_cases a entry rule with ⟨hsettled, hsame⟩ |
    ⟨-, ⟨script, hsame⟩ | ⟨count, refusal, -, hsame⟩⟩
  · refine ⟨hsettled, ?_⟩
    by_contra hwatched
    have hmoves := repointSources_moves.mpr hwatched
    simp [hsame, hmoves] at hsources
  · simp [hsame] at haction
  · rw [hsame] at hmoved
    cases hmoved

end Transaction

/-! ## Whole passes -/

section Passes

variable {a : RuleAttempt} {entries journal : List RuleEntry} {rules : Id → Option EventRule}
  {state : RuleState} {transaction : RuleTransaction}

/-- A pass writes no rule without a transaction. -/
theorem repointRules_elsewhere {i : Id}
    (h : ∀ transaction ∈ (repointRules a entries rules).2, transaction.entry.pk ≠ i) :
    (repointRules a entries rules).1 i = rules i := by
  induction entries generalizing rules with
  | nil => rfl
  | cons entry rest ih =>
    rw [repointRules] at h ⊢
    cases hrow : rules entry.pk with
    | none =>
      simp only [hrow] at h ⊢
      exact ih h
    | some rule =>
      simp only [hrow, List.mem_cons, forall_eq_or_imp] at h ⊢
      have hne : i ≠ entry.pk := Ne.symm h.1
      rw [ih h.2, Function.update_of_ne hne]

/-- Each transaction of a pass is that of its rule as the pass found it. -/
theorem mem_repointRules (hnodup : (entries.map RuleEntry.pk).Nodup)
    (h : transaction ∈ (repointRules a entries rules).2) :
    transaction.entry ∈ entries ∧ rules transaction.entry.pk = some transaction.before ∧
      transaction = repointRule a transaction.entry transaction.before ∧
      (repointRules a entries rules).1 transaction.entry.pk = some transaction.after := by
  induction entries generalizing rules transaction with
  | nil => cases h
  | cons entry rest ih =>
    rw [List.map_cons, List.nodup_cons] at hnodup
    rw [repointRules] at h ⊢
    cases hrow : rules entry.pk with
    | none =>
      simp only [hrow] at h ⊢
      obtain ⟨hmem, hfound, hsame, hleft⟩ := ih hnodup.2 h
      exact ⟨List.mem_cons_of_mem _ hmem, hfound, hsame, hleft⟩
    | some rule =>
      simp only [hrow, List.mem_cons] at h ⊢
      rcases h with rfl | h
      · refine ⟨.inl rfl, hrow, rfl, ?_⟩
        rw [repointRules_elsewhere, show (repointRule a entry rule).entry = entry from rfl,
          Function.update_self]
        intro later hlater hsame
        have hin := (ih hnodup.2 hlater).1
        exact hnodup.1 (List.mem_map.mpr ⟨later.entry, hin, hsame⟩)
      · obtain ⟨hmem, hfound, hsame, hleft⟩ := ih hnodup.2 h
        have hne : transaction.entry.pk ≠ entry.pk := fun heq =>
          hnodup.1 (List.mem_map.mpr ⟨_, hmem, heq⟩)
        rw [Function.update_of_ne hne] at hfound
        exact ⟨.inr hmem, hfound, hsame, hleft⟩

/-- A pass has finished a rule and put it back into service. -/
def Restored (done : List RuleTransaction) (entry : RuleEntry) : Prop :=
  ∃ transaction ∈ done, transaction.entry = entry ∧ transaction.moved = true

/-- The rules are as the passes so far leave them: those restored still name nothing of the
built-in feature, and what names nothing of it is enabled if it was captured so. -/
def RulesUndisturbed (journal : List RuleEntry) (done : List RuleTransaction)
    (rules : Id → Option EventRule) : Prop :=
  ∀ entry ∈ journal, ∀ rule, rules entry.pk = some rule →
    (Restored done entry → AlreadyMoved entry rule) ∧
      (AlreadyMoved entry rule → entry.enabled = true → rule.enabled = true)

/-- The states of the runs whose edits leave the rules undisturbed. -/
inductive ReachedUndisturbed (journal : List RuleEntry) : RuleState → Prop
  | start (rules : Id → Option EventRule) (h : RulesUndisturbed journal [] rules) :
    ReachedUndisturbed journal ⟨rules, false, []⟩
  | edit {state : RuleState} (rules : Id → Option EventRule)
    (reached : ReachedUndisturbed journal state) (h : RulesUndisturbed journal state.done rules) :
    ReachedUndisturbed journal (state.next journal (.edit rules))
  | attempt {state : RuleState} (a : RuleAttempt) (reached : ReachedUndisturbed journal state) :
    ReachedUndisturbed journal (state.next journal (.attempt a))

/-- **A pass** leaves the rules undisturbed. -/
theorem RulesUndisturbed.pass (hnodup : (journal.map RuleEntry.pk).Nodup)
    (hsub : entries.Sublist journal) {done : List RuleTransaction}
    (h : RulesUndisturbed journal done rules) :
    RulesUndisturbed journal (done ++ (repointRules a entries rules).2)
      (repointRules a entries rules).1 := by
  have hnodup' : (entries.map RuleEntry.pk).Nodup := (hsub.map _).nodup hnodup
  intro entry hmem rule hrule
  by_cases hwritten : ∃ transaction ∈ (repointRules a entries rules).2,
      transaction.entry.pk = entry.pk
  · -- the rule is as the one transaction of this pass left it
    obtain ⟨transaction, hin, hpk⟩ := hwritten
    obtain ⟨hentry, hfound, hsame, hleft⟩ := mem_repointRules hnodup' hin
    obtain rfl : transaction.entry = entry :=
      List.inj_on_of_nodup_map hnodup (hsub.subset hentry) hmem hpk
    obtain rfl : rule = transaction.after := Option.some.inj (hrule.symm.trans hleft)
    by_cases hmoved : transaction.moved = true
    · rw [hsame] at hmoved
      have hafter := alreadyMoved_after hmoved
      rw [← hsame] at hafter
      exact ⟨fun _ => hafter.1, fun _ => hafter.2⟩
    · have hopen : ¬ AlreadyMoved transaction.entry transaction.after := by
        rw [hsame] at hmoved
        have hnot := not_alreadyMoved_after hmoved
        rwa [← hsame] at hnot
      refine ⟨fun hrestored => ?_, fun hafter => absurd hafter hopen⟩
      -- a rule restored before is found moved, so its action needs nothing further
      exfalso
      obtain ⟨earlier, hearlier, hsameEntry, hfinished⟩ := hrestored
      rcases List.mem_append.mp hearlier with hbefore | hnow
      · have hbeforeMoved := (h _ hmem _ hfound).1 ⟨earlier, hbefore, hsameEntry, hfinished⟩
        have hafter := writes_of_alreadyMoved (a := a) hbeforeMoved
          ((h _ hmem _ hfound).2 hbeforeMoved)
        rw [← hsame] at hafter
        exact hopen (hafter.2 ▸ hbeforeMoved)
      · obtain ⟨-, hfound', hsame', hleft'⟩ := mem_repointRules hnodup' hnow
        rw [hsame'] at hfinished
        have hafter := (alreadyMoved_after hfinished).1
        rw [← hsame', hsameEntry] at hafter
        rw [hsameEntry] at hleft'
        obtain heq : earlier.after = transaction.after :=
          Option.some.inj (hleft'.symm.trans hleft)
        exact hopen (heq ▸ hafter)
  · -- the pass did not get to it
    have helsewhere : ∀ transaction ∈ (repointRules a entries rules).2,
        transaction.entry.pk ≠ entry.pk := fun transaction hin hpk =>
      hwritten ⟨transaction, hin, hpk⟩
    rw [repointRules_elsewhere helsewhere] at hrule
    refine ⟨fun hrestored => (h entry hmem rule hrule).1 ?_, (h entry hmem rule hrule).2⟩
    obtain ⟨earlier, hearlier, hsameEntry, hfinished⟩ := hrestored
    refine ⟨earlier, (List.mem_append.mp hearlier).resolve_right fun hnow => ?_, hsameEntry,
      hfinished⟩
    exact helsewhere earlier hnow (congrArg RuleEntry.pk hsameEntry)

/-- In these runs the rules are undisturbed before each pass. -/
theorem ReachedUndisturbed.undisturbed (hnodup : (journal.map RuleEntry.pk).Nodup)
    (h : ReachedUndisturbed journal state) : RulesUndisturbed journal state.done state.rules := by
  induction h with
  | start rules hrules => exact hrules
  | edit rules _ hrules _ => exact hrules
  | @attempt state a _ ih =>
    unfold RuleState.next
    by_cases hdone : state.stepDone = true
    · simpa only [if_pos hdone] using ih
    · simp only [if_neg hdone]
      exact ih.pass hnodup (List.take_sublist _ _)

/-- **A restored rule is left alone**: whatever the runs of undisturbed edits reach, no pass
writes a rule that an earlier one restored, a pass enables a rule only in the transaction that
finishes moving it and only if it was captured enabled, and what has no transaction stays. -/
theorem passes_leave_restored_rules (hnodup : (journal.map RuleEntry.pk).Nodup)
    (h : ReachedUndisturbed journal state) (a : RuleAttempt) :
    (∀ transaction ∈ passTransactions journal a state,
      (Restored state.done transaction.entry →
        transaction.writes = [] ∧ transaction.after = transaction.before) ∧
      (RuleWrite.enabled ∈ transaction.writes → transaction.moved = true ∧
        transaction.entry.enabled = true ∧
          (RuleWrite.action ∈ transaction.writes ∨ RuleWrite.sources ∈ transaction.writes))) ∧
    ∀ i, (∀ transaction ∈ passTransactions journal a state, transaction.entry.pk ≠ i) →
      (state.next journal (.attempt a)).rules i = state.rules i := by
  have hundisturbed := h.undisturbed hnodup
  unfold passTransactions RuleState.next
  by_cases hdone : state.stepDone = true
  · simp only [if_pos hdone]
    exact ⟨fun _ hmem => absurd hmem List.not_mem_nil, fun _ _ => trivial⟩
  · simp only [if_neg hdone]
    refine ⟨fun transaction hmem => ?_, fun i hi => repointRules_elsewhere hi⟩
    have hsub := List.take_sublist a.reached journal
    obtain ⟨hentry, hfound, hsame, -⟩ := mem_repointRules ((hsub.map _).nodup hnodup) hmem
    obtain ⟨hrestored, hcaptured⟩ :=
      hundisturbed transaction.entry (hsub.subset hentry) transaction.before hfound
    rw [hsame]
    refine ⟨fun hearlier => ?_, fun henabled => ?_⟩
    · have hmoved := hrestored hearlier
      exact writes_of_alreadyMoved hmoved (hcaptured hmoved)
    · obtain ⟨hmoved, hentryEnabled, hdisabled, halready⟩ := of_enabled_mem_writes henabled
      refine ⟨hmoved, hentryEnabled, ?_⟩
      -- with neither half moved here the rule had moved, so it would have been found enabled
      by_contra hneither
      obtain ⟨haction, hsources⟩ := not_or.mp hneither
      have hon := hcaptured (halready haction hsources) hentryEnabled
      rw [hdisabled] at hon
      cases hon

end Passes

/-! ## A rule that is disabled meanwhile -/

section Disabled

/-- Two captured rules, of which the second runs a script that does not resolve. -/
def twoRules : List RuleEntry :=
  [⟨1, py "a", true, some 10, some legacyScriptType, []⟩,
    ⟨2, py "b", true, some 20, some legacyScriptType, []⟩]

/-- A pass that resolves the first script only. -/
def firstResolved : RuleAttempt where
  resolved key := if key = 10 then some ⟨100, false, py "S"⟩ else none
  mapped _ := true
  fullClean _ := none
  reached := 2

/-- A rule on a built-in script as the fence leaves it. -/
def withdrawnRule (key : Id) : EventRule :=
  ⟨false, py "script", some legacyScriptType, some key, []⟩

/-- The fence has withdrawn both rules. -/
def withdrawnRules : Id → Option EventRule :=
  fun i => if i = 1 then some (withdrawnRule 10)
    else if i = 2 then some (withdrawnRule 20) else none

/-- The state after a pass. -/
def afterPass : RuleState :=
  RuleState.next twoRules ⟨withdrawnRules, false, []⟩ (.attempt firstResolved)

/-- What an operator who disables the first rule leaves. -/
def firstDisabled (rules : Id → Option EventRule) : Id → Option EventRule := fun i =>
  if i = 1 then (rules 1).map fun rule => { rule with enabled := false } else rules i

/-- **A rule that an operator disabled is enabled by the next pass**, though the pass before had
finished it. -/
theorem restored_rule_enabled_again :
    (afterPass.rules 1).map EventRule.enabled = some true ∧ afterPass.stepDone = false ∧
      (afterPass.done.map fun transaction => (transaction.entry.pk, transaction.moved)) =
        [(1, true), (2, false)] ∧
      let edited := afterPass.next twoRules (.edit (firstDisabled afterPass.rules))
      (edited.rules 1).map EventRule.enabled = some false ∧
        ((passTransactions twoRules firstResolved edited).map fun transaction =>
          (transaction.entry.pk, transaction.writes)) = [(1, [.enabled]), (2, [])] ∧
        ((edited.next twoRules (.attempt firstResolved)).rules 1).map EventRule.enabled =
          some true := by
  refine ⟨by decide, by decide, by decide, by decide, by decide, by decide⟩

/-- Without that edit the next pass leaves the rule alone. -/
theorem passes_leave_restored_rules_of_two :
    ∃ transaction ∈ passTransactions twoRules firstResolved afterPass,
      transaction.entry.pk = 1 ∧ transaction.writes = [] ∧
        transaction.after = transaction.before := by
  have hstart : RulesUndisturbed twoRules [] withdrawnRules := by
    intro entry hentry rule hrule
    simp only [twoRules, List.mem_cons, List.not_mem_nil, or_false] at hentry
    refine ⟨?_, fun halready => ?_⟩
    · rintro ⟨earlier, hearlier, -⟩
      exact absurd hearlier List.not_mem_nil
    · -- the action of neither rule is settled
      exfalso
      obtain ⟨hsettled, -⟩ := halready
      rcases hentry with rfl | rfl
      · obtain rfl : withdrawnRule 10 = rule := Option.some.inj hrule
        rcases hsettled with hnone | hslug
        · cases hnone
        · exact absurd hslug (by decide)
      · obtain rfl : withdrawnRule 20 = rule := Option.some.inj hrule
        rcases hsettled with hnone | hslug
        · cases hnone
        · exact absurd hslug (by decide)
  have hreached : ReachedUndisturbed twoRules afterPass :=
    .attempt firstResolved (.start withdrawnRules hstart)
  have hleft := passes_leave_restored_rules (by decide) hreached firstResolved
  obtain ⟨transaction, rest, hpass, hentry⟩ : ∃ transaction rest,
      passTransactions twoRules firstResolved afterPass = transaction :: rest ∧
        transaction.entry = ⟨1, py "a", true, some 10, some legacyScriptType, []⟩ :=
    ⟨_, _, rfl, rfl⟩
  obtain ⟨earlier, later, hdone, hsame, hmoved⟩ : ∃ earlier later,
      afterPass.done = earlier :: later ∧
        earlier.entry = ⟨1, py "a", true, some 10, some legacyScriptType, []⟩ ∧
          earlier.moved = true := ⟨_, _, rfl, rfl, by decide⟩
  have hmem : transaction ∈ passTransactions twoRules firstResolved afterPass := by
    rw [hpass]
    exact List.mem_cons_self
  have hrestored : Restored afterPass.done transaction.entry := by
    refine ⟨earlier, ?_, hsame.trans hentry.symm, hmoved⟩
    rw [hdone]
    exact List.mem_cons_self
  exact ⟨transaction, hmem, congrArg RuleEntry.pk hentry,
    (hleft.1 transaction hmem).1 hrestored⟩

end Disabled

end NetBoxScripts
