import NetBoxScripts.Concurrency.Alone
import NetBoxScripts.Migration.Passes
import NetBoxScripts.Migration.Schedules
import NetBoxScripts.Python.JsonText

/-!
# The loop over the captured schedules

`recreate_schedules` twice: `Migration/Passes` has its statements, with what refuses a replay as one
answer; `Migration/Schedules` has every exit of the loop and every message, of a pass that may die.
What the statements have done after any of them is what the loop does of some of the schedules.

## Main definitions

* `SameSchedule`: one captured schedule, as both have it
* `Replayed`: the rows and the record that a pass of the loop leaves

## Main results

* `recreateEntry_refines`, `recreateEntries_refines`: one schedule, and the loop
-/

namespace NetBoxScripts

/-- `entry['cancellation']` -/
def Cancellation.text : Cancellation → PyStr
  | .cancelling => py "cancelling"
  | .cancelled => py "cancelled"
  | .executed => py "executed"
  | .running => py "running"
  | .vanished => py "vanished"

/-- One captured schedule. -/
structure SameSchedule (entry : ScheduleEntry) (captured : CapturedSchedule) : Prop where
  jobPk : captured.jobPk = entry.jobPk
  legacyObjectType : captured.legacyObjectType = entry.legacyObjectType
  dropped : captured.dropped = entry.dropped
  cancellation : captured.cancellation = entry.cancellation.map Cancellation.text

/-- A pass that meets a script, a time and a user for every schedule, and a queue that takes some of
them. -/
def replaying (changed replayable : Id → Bool) : ScheduleAttempt where
  changed := changed
  resolved _ := some ⟨0, []⟩
  mapped _ := true
  upcoming text := some text
  user _ := some ⟨[], true⟩
  permitted _ _ := true
  recreate entry := if replayable entry.jobPk then .enqueued .null false else .failed []
  reached := 0
  records := 0

section Examine

variable {changed replayable changed' replayable' : Id → Bool} {recorded : List Id}
  {captured : CapturedSchedule} {entry : ScheduleEntry}

/-- What a pass replays. -/
def Replayable (changed replayable : Id → Bool) (recorded : List Id) (entry : ScheduleEntry) :
    Prop :=
  entry.jobPk ∉ recorded ∧ entry.cancellation ≠ some .executed ∧
    entry.cancellation ≠ some .running ∧
    ¬ (entry.cancellation = some .cancelled ∧ changed entry.jobPk = true) ∧
    entry.legacyObjectType = py "extras.script" ∧ entry.dropped = [] ∧
    replayable entry.jobPk = true

theorem text_injective : Function.Injective Cancellation.text := by
  intro a b h
  cases a <;> cases b <;> first | rfl | exact absurd h (by decide)

theorem SameSchedule.cancellation_iff (h : SameSchedule entry captured) (c : Cancellation) :
    captured.cancellation = some c.text ↔ entry.cancellation = some c := by
  rw [h.cancellation]
  exact (Option.map_injective text_injective).eq_iff (b := some c)

/-- A replay that reaches the queue is made where the queue takes it. -/
theorem examineOwner_replaying {script : ScheduleScript} {scheduleAt : Option PyStr}
    {shifted : Bool} : ∃ job reason, examineOwner (replaying changed replayable) captured script
      scheduleAt shifted = if replayable captured.jobPk then .created job script.text shifted
        else .skipped reason := by
  have hrecreated : ∀ user, ∃ job reason, recreated (replaying changed replayable) captured script
      user scheduleAt shifted = if replayable captured.jobPk then .created job script.text shifted
        else .skipped reason := by
    intro user
    refine ⟨replacementFor captured script.pk .null false user scheduleAt, .failed script.text [],
      ?_⟩
    rw [recreated, replaying]
    dsimp only
    split_ifs <;> rfl
  rw [examineOwner]
  cases captured.userPk.filter (· ≠ 0) with
  | none => exact hrecreated none
  | some owner => exact hrecreated (some owner)

theorem replaySchedule_replaying : ∃ scheduleAt shifted,
    replaySchedule (replaying changed replayable) captured = some (scheduleAt, shifted) := by
  unfold replaySchedule replaying
  cases captured.scheduled with
  | none => exact ⟨none, false, rfl⟩
  | some text =>
    dsimp only
    split_ifs
    · exact ⟨none, false, rfl⟩
    · exact ⟨some text, false, rfl⟩

/-- **One schedule** is recreated exactly where it is replayed. -/
theorem examine_replaying (h : SameSchedule entry captured) :
    (Replayable changed replayable recorded entry → ∃ job script shifted,
      examine (replaying changed replayable) recorded captured = .created job script shifted) ∧
    (¬ Replayable changed replayable recorded entry →
      examine (replaying changed replayable) recorded captured = .recorded ∨
        ∃ reason, examine (replaying changed replayable) recorded captured = .skipped reason) := by
  have hexecuted : captured.cancellation = some (py "executed") ↔
      entry.cancellation = some .executed := h.cancellation_iff .executed
  have hrunning : captured.cancellation = some (py "running") ↔
      entry.cancellation = some .running := h.cancellation_iff .running
  have hcancelled : captured.cancellation = some (py "cancelled") ↔
      entry.cancellation = some .cancelled := h.cancellation_iff .cancelled
  obtain ⟨scheduleAt, shifted, hreplay⟩ := replaySchedule_replaying
  obtain ⟨job, reason, howner⟩ := examineOwner_replaying
  have hexamine : examine (replaying changed replayable) recorded captured =
      if entry.jobPk ∈ recorded then .recorded
      else if entry.cancellation = some .executed ∨ entry.cancellation = some .running then
        .skipped .taken
      else if entry.cancellation = some .cancelled ∧ changed entry.jobPk = true then
        .skipped .changed
      else if entry.legacyObjectType ≠ py "extras.script" then .skipped .module
      else if entry.dropped ≠ [] then .skipped .dropped
      else if replayable entry.jobPk then .created job [] shifted else .skipped reason := by
    rw [examine, h.jobPk, h.legacyObjectType, h.dropped]
    simp only [hexecuted, hrunning, hcancelled]
    have hresolved : (replaying changed replayable).resolved captured.legacyScriptPk =
        some ⟨0, []⟩ := rfl
    rw [hresolved]
    dsimp only
    rw [hreplay]
    dsimp only
    rw [howner, h.jobPk]
    rfl
  rw [hexamine, Replayable]
  split_ifs with hrecorded htaken hchanged htype hdropped hreplayable
  · exact ⟨fun h => absurd hrecorded h.1, fun _ => .inl rfl⟩
  · exact ⟨fun h => absurd htaken (not_or.mpr ⟨h.2.1, h.2.2.1⟩), fun _ => .inr ⟨_, rfl⟩⟩
  · exact ⟨fun h => absurd hchanged h.2.2.2.1, fun _ => .inr ⟨_, rfl⟩⟩
  · exact ⟨fun h => absurd h.2.2.2.2.1 htype, fun _ => .inr ⟨_, rfl⟩⟩
  · exact ⟨fun h => absurd h.2.2.2.2.2.1 hdropped, fun _ => .inr ⟨_, rfl⟩⟩
  · refine ⟨fun _ => ⟨job, [], shifted, rfl⟩, fun hnot => absurd ?_ hnot⟩
    exact ⟨hrecorded, (not_or.mp htaken).1, (not_or.mp htaken).2, hchanged, not_not.mp htype,
      not_not.mp hdropped, hreplayable⟩
  · exact ⟨fun h => absurd h.2.2.2.2.2.2 hreplayable, fun _ => .inr ⟨_, rfl⟩⟩

end Examine

/-! ## What a pass leaves -/

/-- **What the loop has done**: the Jobs since the pass began are those that the records name, and
stand for their schedules. -/
structure Replayed (pk first : Id) (w : MigrationWorld) (pass : SchedulePass) : Prop where
  next : pass.jobs.next = w.jobs.next
  recorded : (w.runs.row pk).map (fun row => row.journal.mapping (py "recreated_schedules")) =
    some (pass.recreated.map fun made => (decimal made.1, made.2))
  made : ∀ new, first ≤ new → new < w.jobs.next → ∃ job, (job, new) ∈ pass.recreated ∧
    w.jobs.row new = some ⟨.pending, none, false, some job⟩

section Replay

variable {t : ThreadId} {w : MigrationWorld} {pk first : Id} {pass pass' : SchedulePass}
  {captured : CapturedSchedule} {entry : ScheduleEntry} {job : ReplacementJob} {row : MigrationRow}
  {changed replayable changed' replayable' : Id → Bool}

/-- The pass after one more schedule. -/
def SchedulePass.replay (pass : SchedulePass) (changed replayable : Id → Bool)
    (captured : CapturedSchedule) : SchedulePass :=
  pass.apply captured
    (examine (replaying changed replayable) (pass.recreated.map Prod.fst) captured)

theorem Replayed.congr (h : Replayed pk first w pass) (hjobs : pass'.jobs = pass.jobs)
    (hrecreated : pass'.recreated = pass.recreated) : Replayed pk first w pass' where
  next := hjobs ▸ h.next
  recorded := hrecreated ▸ h.recorded
  made := hrecreated ▸ h.made

/-- A new Job and the record of it. -/
theorem Replayed.enqueue (h : Replayed pk first w pass) (hrow : w.runs.row pk = some row)
    (hnew : captured.jobPk ∉ pass.recreated.map Prod.fst) :
    Replayed pk first { w with
      jobs := w.jobs.insert ⟨.pending, none, false, some captured.jobPk⟩
      runs := w.runs.modify pk fun _ =>
        row.recordMapping (py "recreated_schedules") [(decimal captured.jobPk, w.jobs.next)] }
      (pass.enqueue captured job) where
  next := congrArg (· + 1) h.next
  recorded := by
    have hmapping := h.recorded
    rw [hrow, Option.map_some, Option.some.injEq] at hmapping
    have hkey : decimal captured.jobPk ∉
        (pass.recreated.map fun made => (decimal made.1, made.2)).map Prod.fst := by
      rw [List.map_map]
      intro hmem
      obtain ⟨made, hmade, hsame⟩ := List.mem_map.mp hmem
      exact hnew (Json.decimal_injective hsame ▸ List.mem_map_of_mem hmade)
    rw [Table.row_modify_self, hrow, Option.map_some, Option.map_some,
      mapping_recordMapping_self, hmapping, Dict.update_cons, Dict.update_nil,
      Dict.set_of_notMem hkey, SchedulePass.enqueue, List.map_append, h.next]
    rfl
  made new hfirst hlt := by
    rcases Nat.lt_succ_iff_lt_or_eq.mp hlt with hold | rfl
    · obtain ⟨key, hmem, hjob⟩ := h.made new hfirst hold
      exact ⟨key, List.mem_append_left _ hmem, Table.row_insert_of_row hjob⟩
    · refine ⟨captured.jobPk, List.mem_append_right _ ?_, Table.row_insert_next⟩
      rw [h.next]
      exact List.mem_singleton_self _

/-- A schedule that is not replayed leaves what there is. -/
theorem Replayed.skip (h : Replayed pk first w pass) (hsame : SameSchedule entry captured)
    (hnot : ¬ Replayable changed replayable (pass.recreated.map Prod.fst) entry) :
    Replayed pk first w (pass.replay changed replayable captured) ∧
      (pass.replay changed replayable captured).recreated = pass.recreated := by
  unfold SchedulePass.replay
  rcases (examine_replaying hsame).2 hnot with hrecorded | ⟨reason, hskipped⟩
  · rw [hrecorded]
    exact ⟨h, rfl⟩
  · rw [hskipped]
    exact ⟨h.congr rfl rfl, rfl⟩

/-- A schedule that is replayed has its Job. -/
theorem Replayed.create (h : Replayed pk first w pass) (hsame : SameSchedule entry captured)
    (hreplayed : Replayable changed replayable (pass.recreated.map Prod.fst) entry)
    (hrow : w.runs.row pk = some row) :
    Replayed pk first { w with
      jobs := w.jobs.insert ⟨.pending, none, false, some entry.jobPk⟩
      runs := w.runs.modify pk fun _ =>
        row.recordMapping (py "recreated_schedules") [(decimal entry.jobPk, w.jobs.next)] }
      (pass.replay changed replayable captured) ∧
      (pass.replay changed replayable captured).recreated =
        pass.recreated ++ [(entry.jobPk, w.jobs.next)] := by
  obtain ⟨job, script, shifted, hcreated⟩ := (examine_replaying hsame).1 hreplayed
  have hnew : captured.jobPk ∉ pass.recreated.map Prod.fst := hsame.jobPk ▸ hreplayed.1
  have hmade : Replayed pk first _ (pass.enqueue captured job) := h.enqueue hrow hnew
  unfold SchedulePass.replay
  rw [hcreated, ← hsame.jobPk]
  refine ⟨hmade.congr rfl rfl, ?_⟩
  rw [← h.next]
  rfl

/-- What a pass meets of other schedules makes no difference. -/
theorem examine_congr {recorded : List Id} (hchanged : changed captured.jobPk =
      changed' captured.jobPk) (hreplayable : replayable captured.jobPk =
        replayable' captured.jobPk) :
    examine (replaying changed replayable) recorded captured =
      examine (replaying changed' replayable') recorded captured := by
  unfold examine examineOwner recreated replaySchedule unresolvedReason replaying
  simp only [hchanged, hreplayable]

theorem run_congr {captures : List CapturedSchedule}
    (hsame : ∀ captured ∈ captures, changed captured.jobPk = changed' captured.jobPk ∧
      replayable captured.jobPk = replayable' captured.jobPk) :
    SchedulePass.run (replaying changed replayable) captures pass =
      SchedulePass.run (replaying changed' replayable') captures pass := by
  induction captures generalizing pass with
  | nil => rfl
  | cons captured captures ih =>
    rw [List.forall_mem_cons] at hsame
    unfold SchedulePass.run at ih ⊢
    rw [List.foldl_cons, List.foldl_cons, examine_congr hsame.1.1 hsame.1.2]
    exact ih hsame.2

/-- The answers for one schedule, and those for the others. -/
theorem run_cons_replay {captures : List CapturedSchedule}
    (hnew : captured.jobPk ∉ captures.map CapturedSchedule.jobPk) :
    ∃ changed₀ replayable₀, ∀ later : List CapturedSchedule, later.Sublist captures →
      SchedulePass.run (replaying changed₀ replayable₀) (captured :: later) pass =
        SchedulePass.run (replaying changed' replayable') later
          (pass.replay changed replayable captured) := by
  refine ⟨Function.update changed' captured.jobPk (changed captured.jobPk),
    Function.update replayable' captured.jobPk (replayable captured.jobPk), fun later hsub => ?_⟩
  have hfirst : pass.replay (Function.update changed' captured.jobPk (changed captured.jobPk))
      (Function.update replayable' captured.jobPk (replayable captured.jobPk)) captured =
        pass.replay changed replayable captured :=
    congrArg (pass.apply captured)
      (examine_congr (Function.update_self ..) (Function.update_self ..))
  rw [← hfirst]
  change SchedulePass.run _ later (pass.replay _ _ captured) = _
  refine run_congr fun other hother => ?_
  have hne : other.jobPk ≠ captured.jobPk := by
    intro heq
    exact hnew (heq ▸ List.mem_map_of_mem (hsub.subset hother))
  exact ⟨Function.update_of_ne hne _ _, Function.update_of_ne hne _ _⟩

end Replay

/-! ## The programs -/

namespace Migration

section Programs

variable {t : ThreadId} {w : MigrationWorld} {first : Id} {pass : SchedulePass} {run : RunInstance}
  {captured : CapturedSchedule} {entry : ScheduleEntry} {recreated : List PyStr}

/-- What one more schedule leaves, for some answers: the rows, and the keys in memory. -/
def ReplayedOne (pk first : Id) (pass : SchedulePass) (captured : CapturedSchedule)
    (made : RunInstance × List PyStr) (w : MigrationWorld) : Prop :=
  made.1.pk = pk ∧ ∃ changed replayable,
    Replayed pk first w (pass.replay changed replayable captured) ∧ ∀ key, key ∈ made.2 ↔
      key ∈ (pass.replay changed replayable captured).recreated.map fun made => decimal made.1

/-- What may be left meanwhile. -/
def Replaying (pk first : Id) (pass : SchedulePass) (captured : CapturedSchedule)
    (_ w : MigrationWorld) : Prop :=
  Replayed pk first w pass ∨ ∃ changed replayable,
    Replayed pk first w (pass.replay changed replayable captured)

/-- **One schedule**: the statements do what the body of the loop does, for some answers. -/
theorem recreateEntry_refines (hsame : SameSchedule entry captured)
    (h : Replayed run.pk first w pass)
    (hkeys : ∀ key, key ∈ recreated ↔ key ∈ pass.recreated.map fun made => decimal made.1) :
    wp Undisturbed t (Replaying run.pk first pass captured) (recreateEntry run recreated entry)
      (andThen (ReplayedOne run.pk first pass captured) fun _ _ => False) w := by
  have hrecorded : decimal entry.jobPk ∈ recreated ↔
      entry.jobPk ∈ pass.recreated.map Prod.fst := by
    rw [hkeys, List.mem_map, List.mem_map]
    exact exists_congr fun made => and_congr_right fun _ => Json.decimal_injective.eq_iff
  have hskip : ∀ changed replayable, ¬ Replayable changed replayable
      (pass.recreated.map Prod.fst) entry →
        ReplayedOne run.pk first pass captured (run, recreated) w := by
    intro changed replayable hnot
    obtain ⟨hreplayed, hsame'⟩ := h.skip hsame hnot
    exact ⟨rfl, changed, replayable, hreplayed, fun key => by rw [hsame', hkeys]⟩
  unfold recreateEntry
  split_ifs with htaken
  · refine hskip (fun _ => false) (fun _ => false) fun hreplayed => ?_
    rw [hrecorded] at htaken
    rcases htaken with hdone | hexecuted | hrunning
    · exact hreplayed.1 hdone
    · exact hreplayed.2.1 hexecuted
    · exact hreplayed.2.2.1 hrunning
  · rw [hrecorded, not_or, not_or] at htaken
    -- what follows the answer of the Job, and that of the rest
    have hanswered : ∀ changed replayable : Bool,
        (changed = true → entry.cancellation = some .cancelled) →
        wp Undisturbed t (Replaying run.pk first pass captured)
          (if changed ∨ entry.legacyObjectType ≠ py "extras.script" ∨ entry.dropped ≠ [] ∨
              replayable = false then pure (run, recreated)
            else do
              let run ← recreate run entry.jobPk
              pure (run, decimal entry.jobPk :: recreated))
          (andThen (ReplayedOne run.pk first pass captured) fun _ _ => False) w := by
      intro changed replayable hcancelled
      have hreplay : Replayable (fun _ => changed) (fun _ => replayable)
          (pass.recreated.map Prod.fst) entry ↔
          ¬ (changed ∨ entry.legacyObjectType ≠ py "extras.script" ∨ entry.dropped ≠ [] ∨
            replayable = false) := by
        constructor
        · rintro ⟨-, -, -, hunchanged, htype, hdropped, hreplayable⟩
            (hchanged | htype' | hdropped' | hrefused)
          · exact hunchanged ⟨hcancelled hchanged, hchanged⟩
          · exact htype' htype
          · exact hdropped' hdropped
          · exact Bool.noConfusion (hrefused.symm.trans hreplayable)
        · intro hnone
          simp only [not_or, not_not, Bool.not_eq_false, ne_eq] at hnone
          obtain ⟨hchanged, htype, hdropped, hreplayable⟩ := hnone
          exact ⟨htaken.1, htaken.2.1, htaken.2.2, fun hboth => hchanged hboth.2, htype, hdropped,
            hreplayable⟩
      split_ifs with hrefused
      · exact hskip _ _ fun hreplayed => hreplay.mp hreplayed hrefused
      · rw [wp_bind]
        refine wp_act_undisturbed fun c answer w' hstep => ?_
        obtain ⟨row, hrow⟩ : ∃ row, w.runs.row run.pk = some row := by
          have hmapping := h.recorded
          rw [Option.map_eq_some_iff] at hmapping
          exact hmapping.imp fun row h => h.1
        rw [hrow] at hstep
        cases hstep
        obtain ⟨hreplayed, hmade⟩ := h.create hsame (hreplay.mpr hrefused) hrow
        refine ⟨.inr ⟨_, _, hreplayed⟩, rfl, _, _, hreplayed, fun key => ?_⟩
        rw [hmade, List.map_append, List.mem_append, List.mem_cons, hkeys, or_comm]
        simp
    have hasked : ∀ changed : Bool, (changed = true → entry.cancellation = some .cancelled) →
        wp Undisturbed t (Replaying run.pk first pass captured) (do
            let replayable ← ask Answer.yes
            if changed ∨ entry.legacyObjectType ≠ py "extras.script" ∨ entry.dropped ≠ [] ∨
                replayable = false then pure (run, recreated)
            else do
              let run ← recreate run entry.jobPk
              pure (run, decimal entry.jobPk :: recreated))
          (andThen (ReplayedOne run.pk first pass captured) fun _ _ => False) w := by
      intro changed hcancelled
      rw [wp_bind]
      refine wp_act_undisturbed fun c answer w' hstep => ?_
      cases hstep
      exact ⟨.inl h, hanswered changed c.yes hcancelled⟩
    unfold replayEntry
    split_ifs with hcancelled
    · rw [wp_bind]
      refine wp_act_undisturbed fun c answer w' hstep => ?_
      -- the row has to be free, and is read
      obtain ⟨changed, rfl, rfl⟩ : ∃ changed, answer = .ok changed ∧ w' = w := by
        split_ifs at hstep
        cases hstep
        exact ⟨_, rfl, rfl⟩
      exact ⟨.inl h, hasked changed fun _ => hcancelled⟩
    · exact hasked false nofun

/-- **The loop**: after any of the statements what they did is what the loop does of some of the
schedules, and at the end of all of them, for some answers. -/
theorem recreateEntries_refines {entries : List ScheduleEntry} {captures : List CapturedSchedule}
    (hsame : List.Forall₂ SameSchedule entries captures)
    (hnodup : (captures.map CapturedSchedule.jobPk).Nodup) (h : Replayed run.pk first w pass)
    (hkeys : ∀ key, key ∈ recreated ↔ key ∈ pass.recreated.map fun made => decimal made.1) :
    wp Undisturbed t (fun _ w' => ∃ changed replayable n, Replayed run.pk first w'
        (SchedulePass.run (replaying changed replayable) (captures.take n) pass))
      (recreateEntries run recreated entries)
      (andThen (fun made w' => made.pk = run.pk ∧ ∃ changed replayable, Replayed run.pk first w'
        (SchedulePass.run (replaying changed replayable) captures pass)) fun _ _ => False) w := by
  induction hsame generalizing run recreated pass w with
  | nil => exact ⟨rfl, fun _ => false, fun _ => false, h⟩
  | @cons entry captured entries captures hfirst _ ih =>
    rw [List.map_cons, List.nodup_cons] at hnodup
    rw [recreateEntries, wp_bind]
    refine wp_mono (fun result w₁ h₁ => ?_)
      (wp_guar_mono (fun w₁ w₂ hreplaying => ?_) (recreateEntry_refines hfirst h hkeys))
    · cases result with
      | error e => exact h₁
      | ok made =>
        obtain ⟨hpk, changed₁, replayable₁, hreplayed, hkeys₁⟩ := h₁
        have hreplayed' : Replayed made.1.pk first w₁
            (pass.replay changed₁ replayable₁ captured) := hpk ▸ hreplayed
        have hrest := ih hnodup.2 hreplayed' hkeys₁
        rw [hpk] at hrest
        refine wp_mono (fun result w₂ h₂ => ?_) (wp_guar_mono (fun w₂ w₃ hongoing => ?_) hrest)
        · cases result with
          | error e => exact h₂
          | ok last =>
            obtain ⟨hpk₂, changed₂, replayable₂, hreplayed₂⟩ := h₂
            obtain ⟨changed, replayable, hrun⟩ := run_cons_replay hnodup.1
            refine ⟨hpk₂, changed, replayable, ?_⟩
            rw [hrun _ (List.Sublist.refl _)]
            exact hreplayed₂
        · obtain ⟨changed₂, replayable₂, n, hreplayed₂⟩ := hongoing
          obtain ⟨changed, replayable, hrun⟩ := run_cons_replay hnodup.1
          refine ⟨changed, replayable, n + 1, ?_⟩
          rw [List.take_succ_cons, hrun _ (List.take_sublist _ _)]
          exact hreplayed₂
    · rcases hreplaying with hold | ⟨changed, replayable, hnew⟩
      · exact ⟨fun _ => false, fun _ => false, 0, hold⟩
      · exact ⟨changed, replayable, 1, hnew⟩

end Programs

end Migration

end NetBoxScripts
