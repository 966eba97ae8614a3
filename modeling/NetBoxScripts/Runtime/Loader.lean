import Mathlib.Data.List.Infix
import NetBoxScripts.Python.Text
import NetBoxScripts.Python.WriteLog

/-!
# Importing a script file

`runtime/loader.py`: a script file is imported below its revision's package, and a failed import
sweeps the modules it added. Project code runs meanwhile, and what the import system does for it is
a list of events, among them what project code itself assigns.

## Main definitions

* `LoaderState`: `sys.modules`, and the attributes of module objects
* `LoaderState.happen`: one event of the import system, or an assignment of project code
* `importScriptFile`, `unloadRevision`: the operations
* `Restored`: what a failed import should leave as it was
* `Surviving`: the entries and attributes that outlive a failed import

## Main results

* `get_run`: what a place holds after a run of events
* `importScriptFile_restored_iff`: a failed import restores everything exactly when the revision
  was not loaded before, or what the import system wrote last of what survives is harmless
* `Settled.importScriptFile`, `Settled.unloadRevision`: what holds between calls
-/

namespace NetBoxScripts.Loader

/-- An object, a module among them. -/
abbrev Obj := ℕ

/-- A dotted name, as its segments. -/
abbrev ModuleName := List PyStr

/-- A revision's package, its project's container and the private root. -/
structure RevisionName where
  root : PyStr
  project : PyStr
  revision : PyStr
  /-- The one begins with `p_`, the other with `r_`. -/
  apart : project ≠ revision

/-- `project_module_name(storage_key)` -/
def RevisionName.container (names : RevisionName) : ModuleName := [names.root, names.project]

/-- `revision_module_name(storage_key, digest)` -/
def RevisionName.package (names : RevisionName) : ModuleName :=
  [names.root, names.project, names.revision]

/-- `name in _loaded_names(revision_name)`, of a registered name -/
def RevisionName.Below (names : RevisionName) (name : ModuleName) : Prop := names.package <+: name

instance (names : RevisionName) (name : ModuleName) : Decidable (names.Below name) :=
  inferInstanceAs (Decidable (_ <+: _))

/-- The modules of the process. -/
structure LoaderState where
  /-- `sys.modules` -/
  entry : ModuleName → Option Obj
  /-- `getattr(module, name, None)` -/
  attr : Obj → PyStr → Option Obj
  /-- The next object that is created. -/
  next : Obj
  /-- The modules that are being imported. -/
  loading : List ModuleName

/-- What happens while an import runs. -/
inductive ImportEvent
  /-- The import system creates a module and registers it. -/
  | start (name : ModuleName)
  /-- A module's import succeeds: it becomes an attribute of its parent package. -/
  | finish (name : ModuleName)
  /-- A module's import fails: the import system takes it out of `sys.modules`. -/
  | abort (name : ModuleName)
  /-- Project code makes an object. -/
  | allocate
  /-- Project code assigns an attribute of a module, or deletes it. -/
  | assign (module : Obj) (name : PyStr) (value : Option Obj)
  /-- Project code assigns the entry of a module of its revision, named from the package on, or
  deletes it. -/
  | register (below : ModuleName) (value : Option Obj)
  deriving DecidableEq

namespace LoaderState

variable (w : LoaderState)

/-- `sys.modules[name] = module` -/
def setEntry (name : ModuleName) (value : Option Obj) : LoaderState :=
  { w with entry := Function.update w.entry name value }

/-- `setattr(module, name, value)`, `delattr(module, name)` -/
def setAttr (module : Obj) (name : PyStr) (value : Option Obj) : LoaderState :=
  { w with attr := Function.update w.attr module (Function.update (w.attr module) name value) }

/-- A new module object, under a name. -/
def create (name : ModuleName) : LoaderState :=
  { w.setEntry name (some w.next) with next := w.next + 1 }

/-- `setattr(sys.modules[parent], name.rsplit('.', 1)[1], sys.modules[name])` -/
def bindToParent (name : ModuleName) : LoaderState :=
  match w.entry name.dropLast, name.getLast? with
  | some parent, some last => w.setAttr parent last (w.entry name)
  | _, _ => w

variable (names : RevisionName)

/-- One event, where the import system makes it. A module that project code took out meanwhile is
not found when its import ends, which then fails. -/
def happen : ImportEvent → Option LoaderState
  | .start name =>
    if w.entry name = none then some { w.create name with loading := name :: w.loading } else none
  | .finish name =>
    if name ∈ w.loading ∧ w.entry name ≠ none then
      some { w.bindToParent name with loading := w.loading.filter (· ≠ name) }
    else none
  | .abort name =>
    if name ∈ w.loading then
      some { w.setEntry name none with loading := w.loading.filter (· ≠ name) }
    else none
  | .allocate => some { w with next := w.next + 1 }
  | .assign module name value =>
    if module < w.next ∧ ∀ object ∈ value, object < w.next then some (w.setAttr module name value)
    else none
  | .register below value =>
    if ∀ object ∈ value, object < w.next then some (w.setEntry (names.package ++ below) value)
    else none

/-- `_register_container(name)` -/
def registerContainer (name : ModuleName) : LoaderState :=
  if w.entry name = none then w.create name else w

/-- The events of a run, one after another. -/
def run (names : RevisionName) : LoaderState → List ImportEvent → Option LoaderState
  | w, [] => some w
  | w, event :: events => (w.happen names event).bind fun w => run names w events

end LoaderState

section Import

variable (names : RevisionName)

/-- `_ensure_parent_packages(storage_key)` -/
def ensureParentPackages (w : LoaderState) : LoaderState :=
  ((w.registerContainer [names.root]).registerContainer names.container).bindToParent
    names.container

/-- `_register_revision_package`, up to the root module's body. -/
def registerRevisionPackage (w : LoaderState) : LoaderState :=
  (w.create names.package).bindToParent names.package

/-- `_sweep_added(revision_name, before, project_module)` -/
def sweepAdded (before w : LoaderState) : LoaderState :=
  let w := { w with
    entry := fun name => if names.Below name ∧ before.entry name = none then none else w.entry name
    loading := [] }
  match w.entry names.container with
  | some container =>
    if before.entry names.package = none then w.setAttr container names.revision none else w
  | none => w

/-- What the code that `import_script_file` calls does. -/
inductive ImportOutcome
  /-- The path, the manifest or the membership check refuses. -/
  | refused
  /-- `materialize_revision` raises. -/
  | undelivered
  /-- An import raises, after these events. -/
  | raised (events : List ImportEvent)
  /-- The script file is imported. -/
  | imported (events : List ImportEvent)

/-- What happens inside the failure boundary. -/
def ImportOutcome.events : ImportOutcome → List ImportEvent
  | .refused | .undelivered => []
  | .raised events | .imported events => events

/-- The state that the boundary opens in, with the revision's package. -/
def enterBoundary (w : LoaderState) : LoaderState :=
  if w.entry names.package = none then registerRevisionPackage names w else w

/-- `import_script_file`: whether it returns, and the state it leaves; nothing where the import
system does not make the events. -/
def importScriptFile (w : LoaderState) : ImportOutcome → Option (Bool × LoaderState)
  | .refused => some (false, w)
  | .undelivered => some (false, ensureParentPackages names w)
  | .raised events =>
    let before := ensureParentPackages names w
    ((enterBoundary names before).run names events).map fun w => (false, sweepAdded names before w)
  | .imported events =>
    ((enterBoundary names (ensureParentPackages names w)).run names events).map fun w =>
      (true, { w with loading := [] })

/-- `unload_revision(storage_key, digest)` -/
def unloadRevision (w : LoaderState) : LoaderState :=
  let w := { w with entry := fun name => if names.Below name then none else w.entry name }
  match w.entry names.container with
  | some container => w.setAttr container names.revision none
  | none => w

/-- The revision's binding on its project's container. -/
def binding (w : LoaderState) : Option Obj :=
  (w.entry names.container).bind fun container => w.attr container names.revision

end Import

/-! ## What is written -/

/-- What an import writes: an entry of `sys.modules`, or an attribute. -/
inductive Place
  | entry (name : ModuleName)
  | attr (module : Obj) (key : PyStr)
  deriving DecidableEq

/-- What a place holds. -/
def LoaderState.get (w : LoaderState) : Place → Option Obj
  | .entry name => w.entry name
  | .attr module key => w.attr module key

section Writes

variable (names : RevisionName)

/-- What project code itself writes. -/
def ImportEvent.assigned : ImportEvent → List (Write Place (Option Obj))
  | .assign module key value => [⟨.attr module key, value, true⟩]
  | .register below value => [⟨.entry (names.package ++ below), value, true⟩]
  | .start _ | .finish _ | .abort _ | .allocate => []

/-- What project code writes in a run. -/
def assignments (events : List ImportEvent) : List (Write Place (Option Obj)) :=
  events.flatMap (ImportEvent.assigned names)

/-- `setattr(sys.modules[parent], name.rsplit('.', 1)[1], sys.modules[name])` -/
def bindingWrite (w : LoaderState) (name : ModuleName) : List (Write Place (Option Obj)) :=
  match w.entry name.dropLast, name.getLast? with
  | some parent, some last => [⟨.attr parent last, w.entry name, false⟩]
  | _, _ => []

/-- What an event writes. -/
def LoaderState.written (w : LoaderState) (event : ImportEvent) : List (Write Place (Option Obj)) :=
  match event with
  | .start name => [⟨.entry name, some w.next, false⟩]
  | .finish name => bindingWrite w name
  | .abort name => [⟨.entry name, none, false⟩]
  | .allocate | .assign _ _ _ | .register _ _ => event.assigned names

/-- What a run writes. -/
def LoaderState.log : LoaderState → List ImportEvent → List (Write Place (Option Obj))
  | _, [] => []
  | w, event :: events => w.written names event ++
    ((w.happen names event).elim [] fun w => log w events)

/-- What a call writes until it raises, where the revision's package is loaded: the containers bind
the project's on the root, and the import runs. -/
def callLog (w : LoaderState) (outcome : ImportOutcome) : List (Write Place (Option Obj)) :=
  match outcome with
  | .refused => []
  | .undelivered | .raised _ | .imported _ =>
    let before := ensureParentPackages names w
    bindingWrite before names.container ++ before.log names outcome.events

/-! ## What should be restored -/

/-- A place is as it was, or as project code left it. -/
def Kept (events : List ImportEvent) (w w' : LoaderState) (place : Place) : Prop :=
  w'.get place = w.get place ∨
    w'.get place = valueAfter (assignments names events) place (w.get place)

/-- What a call that raised should leave as it was, but for what project code itself assigned. -/
structure Restored (events : List ImportEvent) (w w' : LoaderState) : Prop where
  entries : ∀ name, names.Below name → Kept names events w w' (.entry name)
  bound : binding names w' = binding names w ∨ ∃ container,
    w'.entry names.container = some container ∧
      Kept names events w w' (.attr container names.revision)
  attrs : ∀ name module, names.Below name → w'.entry name = some module → ∀ key,
    Kept names events w w' (.attr module key)
  /-- What a later import sees on a module is registered, or it was seen so before, or project code
  put it there or took it out of `sys.modules`. -/
  seen : ∀ name module, names.Below name → w'.entry name = some module → ∀ key object,
    w'.attr module key = some object → (∃ other, w'.entry other = some object) ∨
      (w.attr module key = some object ∧ ∀ other, w.entry other ≠ some object) ∨
      .assign module key (some object) ∈ events ∨
      ∃ below value, w.entry (names.package ++ below) = some object ∧
        .register below value ∈ events

/-- What outlives a call that raises: the entries that were there, the revision's binding, and the
attributes of the modules that such entries hold when the import raises. -/
def Surviving (w : LoaderState) (outcome : ImportOutcome) : Place → Prop
  | .entry name => names.Below name ∧ w.entry name ≠ none
  | .attr module key =>
    (w.entry names.container = some module ∧ key = names.revision) ∨
      ∃ name, names.Below name ∧ w.entry name ≠ none ∧
        valueAfter (callLog names w outcome) (.entry name) (w.entry name) = some module

/-- What holds between calls: objects are older than the next one, and without its package a
revision has no modules and no binding. -/
structure Settled (w : LoaderState) : Prop where
  entry_lt : ∀ name module, w.entry name = some module → module < w.next
  attr_lt : ∀ module key value, w.attr module key = some value →
    module < w.next ∧ value < w.next
  idle : w.loading = []
  held : w.entry names.package ≠ none → w.entry names.container ≠ none
  absent : w.entry names.package = none → (∀ name, names.Below name → w.entry name = none) ∧
    binding names w = none

end Writes

/-! ## Single writes -/

namespace LoaderState

variable {w w' : LoaderState} {name name' : ModuleName} {module module' : Obj} {key key' : PyStr}
  {value : Option Obj} {names : RevisionName}

theorem attr_setAttr : (w.setAttr module key value).attr module' key' =
    if module' = module ∧ key' = key then value else w.attr module' key' := by
  unfold setAttr
  by_cases hmodule : module' = module
  · subst hmodule
    by_cases hkey : key' = key
    · subst hkey
      simp
    · simp [hkey]
  · simp [hmodule]

theorem entry_create_of_ne (h : name' ≠ name) : (w.create name).entry name' = w.entry name' :=
  Function.update_of_ne h _ _

@[simp] theorem entry_create : (w.create name).entry name = some w.next :=
  Function.update_self _ _ _

@[simp] theorem entry_bindToParent : (w.bindToParent name).entry = w.entry := by
  unfold bindToParent
  split <;> rfl

@[simp] theorem next_bindToParent : (w.bindToParent name).next = w.next := by
  unfold bindToParent
  split <;> rfl

@[simp] theorem loading_bindToParent : (w.bindToParent name).loading = w.loading := by
  unfold bindToParent
  split <;> rfl

/-- A module is bound on the package above it. -/
theorem attr_bindToParent : (w.bindToParent name).attr module key =
    if w.entry name.dropLast = some module ∧ name.getLast? = some key then w.entry name
    else w.attr module key := by
  unfold bindToParent
  split
  next parent last hparent hlast =>
    rw [attr_setAttr, hparent, hlast]
    simp only [Option.some.injEq, eq_comm]
  next hnone =>
    rw [if_neg]
    rintro ⟨hparent, hlast⟩
    exact hnone _ _ hparent hlast

theorem get_setEntry (place : Place) : (w.setEntry name value).get place =
    valueAfter [⟨.entry name, value, false⟩] place (w.get place) := by
  cases place with
  | attr module key => rfl
  | entry other =>
    simp only [get, setEntry, valueAfter, List.foldl_cons, List.foldl_nil, Place.entry.injEq]
    by_cases heq : other = name
    · rw [heq, Function.update_self, if_pos rfl]
    · rw [Function.update_of_ne heq, if_neg (Ne.symm heq)]

theorem get_setAttr (place : Place) : (w.setAttr module key value).get place =
    valueAfter [⟨.attr module key, value, false⟩] place (w.get place) := by
  cases place with
  | entry name => rfl
  | attr other key' =>
    simp only [get, valueAfter, List.foldl_cons, List.foldl_nil, Place.attr.injEq]
    rw [attr_setAttr]
    simp only [eq_comm]

theorem get_bindToParent (place : Place) : (w.bindToParent name).get place =
    valueAfter (bindingWrite w name) place (w.get place) := by
  unfold bindToParent bindingWrite
  split
  · exact get_setAttr place
  · rfl

end LoaderState

/-! ## Runs of events -/

section Run

variable {names : RevisionName} {w w' : LoaderState} {event : ImportEvent}
  {events : List ImportEvent}

/-- What one event leaves in a place. -/
theorem get_happen (h : w.happen names event = some w') (place : Place) :
    w'.get place = valueAfter (w.written names event) place (w.get place) := by
  unfold LoaderState.happen at h
  cases event with
  | start name =>
    dsimp only at h
    split_ifs at h
    cases h
    exact @LoaderState.get_setEntry w name (some w.next) place
  | finish name =>
    dsimp only at h
    split_ifs at h
    cases h
    exact @LoaderState.get_bindToParent w name place
  | abort name =>
    dsimp only at h
    split_ifs at h
    cases h
    exact @LoaderState.get_setEntry w name none place
  | allocate =>
    cases h
    cases place <;> rfl
  | assign module key value =>
    dsimp only at h
    split_ifs at h
    cases h
    exact LoaderState.get_setAttr place
  | register below value =>
    dsimp only at h
    split_ifs at h
    cases h
    exact LoaderState.get_setEntry place

/-- **A run of events** leaves in each place what its log does. -/
theorem get_run (h : w.run names events = some w') (place : Place) :
    w'.get place = valueAfter (w.log names events) place (w.get place) := by
  induction events generalizing w with
  | nil =>
    cases h
    rfl
  | cons event events ih =>
    rw [LoaderState.run, Option.bind_eq_some_iff] at h
    obtain ⟨w₁, hstep, hrun⟩ := h
    rw [ih hrun, get_happen hstep, LoaderState.log, hstep, Option.elim_some, valueAfter_append]

theorem ownWrites_bindingWrite (name : ModuleName) : ownWrites (bindingWrite w name) = [] := by
  unfold bindingWrite
  split <;> rfl

/-- What of the log project code has written. -/
theorem ownWrites_log (h : w.run names events = some w') :
    ownWrites (w.log names events) = assignments names events := by
  induction events generalizing w with
  | nil => rfl
  | cons event events ih =>
    rw [LoaderState.run, Option.bind_eq_some_iff] at h
    obtain ⟨w₁, hstep, hrun⟩ := h
    have hown : ownWrites (w.written names event) = event.assigned names := by
      cases event with
      | finish name => exact ownWrites_bindingWrite name
      | start name => rfl
      | abort name => rfl
      | allocate => rfl
      | assign module key value => rfl
      | register below value => rfl
    have ih := ih hrun
    unfold ownWrites at ih hown ⊢
    rw [LoaderState.log, hstep, Option.elim_some, List.filter_append, hown, ih]
    rfl

/-- An entry that no import is under way for stays, unless project code writes it. -/
theorem entry_happen (h : w.happen names event = some w') {name : ModuleName} {module : Obj}
    (hentry : w.entry name = some module) (hname : name ∉ w.loading)
    (hregister : ∀ below value, event = .register below value → names.package ++ below ≠ name) :
    w'.entry name = some module ∧ name ∉ w'.loading := by
  unfold LoaderState.happen at h
  cases event with
  | start other =>
    dsimp only at h
    split_ifs at h with hnone
    cases h
    have hne : name ≠ other := by
      rintro rfl
      rw [hentry] at hnone
      cases hnone
    exact ⟨(LoaderState.entry_create_of_ne hne).trans hentry,
      List.not_mem_cons_of_ne_of_not_mem hne hname⟩
  | finish other =>
    dsimp only at h
    split_ifs at h
    cases h
    refine ⟨?_, fun hmem => hname (List.mem_of_mem_filter hmem)⟩
    show (w.bindToParent other).entry name = some module
    rw [LoaderState.entry_bindToParent]
    exact hentry
  | abort other =>
    dsimp only at h
    split_ifs at h with hother
    cases h
    have hne : name ≠ other := by
      rintro rfl
      exact hname hother
    exact ⟨(Function.update_of_ne hne _ _).trans hentry,
      fun hmem => hname (List.mem_of_mem_filter hmem)⟩
  | allocate =>
    cases h
    exact ⟨hentry, hname⟩
  | assign other key value =>
    dsimp only at h
    split_ifs at h
    cases h
    exact ⟨hentry, hname⟩
  | register below value =>
    dsimp only at h
    split_ifs at h
    cases h
    exact ⟨(Function.update_of_ne (hregister below value rfl).symm _ _).trans hentry, hname⟩

theorem entry_run (h : w.run names events = some w') {name : ModuleName} {module : Obj}
    (hentry : w.entry name = some module) (hname : name ∉ w.loading)
    (hregister : ∀ below value, .register below value ∈ events → names.package ++ below ≠ name) :
    w'.entry name = some module := by
  induction events generalizing w with
  | nil =>
    cases h
    exact hentry
  | cons event events ih =>
    rw [LoaderState.run, Option.bind_eq_some_iff] at h
    obtain ⟨w₁, hstep, hrun⟩ := h
    obtain ⟨hentry₁, hname₁⟩ := entry_happen hstep hentry hname fun below value heq =>
      hregister below value (heq ▸ List.mem_cons_self)
    exact ih hrun hentry₁ hname₁ fun below value hmem =>
      hregister below value (List.mem_cons_of_mem _ hmem)

end Run

/-! ## Containers -/

/-- Objects are older than the next one. -/
structure Wellformed (w : LoaderState) : Prop where
  entry_lt : ∀ name module, w.entry name = some module → module < w.next
  attr_lt : ∀ module key value, w.attr module key = some value → module < w.next ∧ value < w.next

section Containers

variable {w w' : LoaderState} {name : ModuleName}

theorem Wellformed.create (h : Wellformed w) (name : ModuleName) : Wellformed (w.create name) := by
  refine ⟨fun other module hother => ?_, fun module key value hvalue => ?_⟩
  · by_cases heq : other = name
    · subst heq
      obtain rfl := Option.some.inj ((LoaderState.entry_create).symm.trans hother)
      exact Nat.lt_succ_self _
    · exact Nat.lt_succ_of_lt
        (h.entry_lt other module ((LoaderState.entry_create_of_ne heq).symm.trans hother))
  · obtain ⟨hmodule, hlt⟩ := h.attr_lt module key value hvalue
    exact ⟨Nat.lt_succ_of_lt hmodule, Nat.lt_succ_of_lt hlt⟩

theorem Wellformed.registerContainer (h : Wellformed w) :
    Wellformed (w.registerContainer name) := by
  unfold LoaderState.registerContainer
  split_ifs
  · exact h.create name
  · exact h

theorem Wellformed.bindToParent (h : Wellformed w) : Wellformed (w.bindToParent name) := by
  refine ⟨fun other module hother => ?_, fun module key value hvalue => ?_⟩
  · rw [LoaderState.entry_bindToParent] at hother
    rw [LoaderState.next_bindToParent]
    exact h.entry_lt other module hother
  · rw [LoaderState.attr_bindToParent] at hvalue
    rw [LoaderState.next_bindToParent]
    split_ifs at hvalue with hhere
    · exact ⟨h.entry_lt _ _ hhere.1, h.entry_lt _ _ hvalue⟩
    · exact h.attr_lt module key value hvalue

theorem Wellformed.setEntry (h : Wellformed w) {value : Option Obj}
    (hvalue : ∀ object ∈ value, object < w.next) : Wellformed (w.setEntry name value) := by
  refine ⟨fun other module hother => ?_, h.attr_lt⟩
  unfold LoaderState.setEntry at hother
  dsimp only at hother
  by_cases heq : other = name
  · rw [heq, Function.update_self] at hother
    exact hvalue module hother
  · rw [Function.update_of_ne heq] at hother
    exact h.entry_lt other module hother

theorem Wellformed.setAttr (h : Wellformed w) {module : Obj} {key : PyStr} {value : Option Obj}
    (hmodule : module < w.next) (hvalue : ∀ object ∈ value, object < w.next) :
    Wellformed (w.setAttr module key value) := by
  refine ⟨h.entry_lt, fun other key' found hfound => ?_⟩
  rw [LoaderState.attr_setAttr] at hfound
  split_ifs at hfound with hhere
  · exact ⟨hhere.1 ▸ hmodule, hvalue found hfound⟩
  · exact h.attr_lt other key' found hfound

variable {names : RevisionName} {event : ImportEvent} {events : List ImportEvent}

theorem Wellformed.happen (h : Wellformed w) (hstep : w.happen names event = some w') :
    Wellformed w' := by
  unfold LoaderState.happen at hstep
  cases event with
  | start name =>
    dsimp only at hstep
    split_ifs at hstep
    cases hstep
    exact ⟨(h.create name).entry_lt, (h.create name).attr_lt⟩
  | finish name =>
    dsimp only at hstep
    split_ifs at hstep
    cases hstep
    have hbound : Wellformed (w.bindToParent name) := h.bindToParent
    exact ⟨hbound.entry_lt, hbound.attr_lt⟩
  | abort name =>
    dsimp only at hstep
    split_ifs at hstep
    cases hstep
    have hgone : Wellformed (w.setEntry name none) := h.setEntry (by simp)
    exact ⟨hgone.entry_lt, hgone.attr_lt⟩
  | allocate =>
    cases hstep
    refine ⟨fun name module hname => Nat.lt_succ_of_lt (h.entry_lt name module hname),
      fun module key value hvalue => ?_⟩
    obtain ⟨hmodule, hlt⟩ := h.attr_lt module key value hvalue
    exact ⟨Nat.lt_succ_of_lt hmodule, Nat.lt_succ_of_lt hlt⟩
  | assign module key value =>
    dsimp only at hstep
    split_ifs at hstep with hexists
    cases hstep
    exact h.setAttr hexists.1 hexists.2
  | register below value =>
    dsimp only at hstep
    split_ifs at hstep with hexists
    cases hstep
    exact h.setEntry hexists

theorem Wellformed.run (h : Wellformed w) (hrun : w.run names events = some w') :
    Wellformed w' := by
  induction events generalizing w with
  | nil =>
    cases hrun
    exact h
  | cons event events ih =>
    rw [LoaderState.run, Option.bind_eq_some_iff] at hrun
    obtain ⟨w₁, hstep, hrun⟩ := hrun
    exact ih (h.happen hstep) hrun

/-- What is swept or unloaded is taken out of a well-formed state. -/
theorem Wellformed.without (h : Wellformed w) (gone : ModuleName → Prop) [DecidablePred gone] :
    Wellformed { w with entry := fun name => if gone name then none else w.entry name,
                        loading := [] } := by
  refine ⟨fun name module hname => ?_, h.attr_lt⟩
  dsimp only at hname
  split_ifs at hname
  exact h.entry_lt name module hname

theorem entry_registerContainer_of_ne {other : ModuleName} (hne : other ≠ name) :
    (w.registerContainer name).entry other = w.entry other := by
  unfold LoaderState.registerContainer
  split_ifs
  · exact LoaderState.entry_create_of_ne hne
  · rfl

/-- A container that is there stays, and one that is not is a new object. -/
theorem entry_registerContainer : ∃ module, (w.registerContainer name).entry name = some module ∧
    (w.entry name = some module ∨ (w.entry name = none ∧ module = w.next)) := by
  unfold LoaderState.registerContainer
  split_ifs with hnone
  · exact ⟨w.next, LoaderState.entry_create, .inr ⟨hnone, rfl⟩⟩
  · obtain ⟨module, hmodule⟩ := Option.ne_none_iff_exists'.mp hnone
    exact ⟨module, hmodule, .inl hmodule⟩

@[simp] theorem attr_registerContainer : (w.registerContainer name).attr = w.attr := by
  unfold LoaderState.registerContainer
  split_ifs <;> rfl

@[simp] theorem loading_registerContainer : (w.registerContainer name).loading = w.loading := by
  unfold LoaderState.registerContainer
  split_ifs <;> rfl

theorem next_le_registerContainer : w.next ≤ (w.registerContainer name).next := by
  unfold LoaderState.registerContainer
  split_ifs
  · exact Nat.le_succ _
  · exact le_rfl

theorem RevisionName.Below.length_le (h : names.Below name) : 3 ≤ name.length :=
  List.IsPrefix.length_le h

theorem RevisionName.below_package : names.Below names.package := List.prefix_rfl

theorem container_ne_root : names.container ≠ [names.root] := by
  simp [RevisionName.container]

theorem RevisionName.Below.ne_root (h : names.Below name) : name ≠ [names.root] := by
  rintro rfl
  exact absurd h.length_le (by simp)

theorem RevisionName.Below.ne_container (h : names.Below name) : name ≠ names.container := by
  rintro rfl
  exact absurd h.length_le (by simp [RevisionName.container])

theorem not_below_container : ¬ names.Below names.container := fun hbelow => hbelow.ne_container rfl

theorem package_append_ne_container (below : ModuleName) :
    names.package ++ below ≠ names.container := by
  have hbelow : names.Below (names.package ++ below) := List.prefix_append _ _
  exact hbelow.ne_container

/-- What the containers change, seen from the revision. -/
structure Contained (names : RevisionName) (w e : LoaderState) : Prop where
  wellformed : Wellformed e
  idle : e.loading = []
  below : ∀ name, names.Below name → e.entry name = w.entry name
  kept : ∀ name module, w.entry name = some module → e.entry name = some module
  container : ∃ module, e.entry names.container = some module ∧
    (w.entry names.container = some module ∨
      (w.entry names.container = none ∧ w.next ≤ module))
  attr : ∀ module key, e.attr module key =
    valueAfter (bindingWrite e names.container) (.attr module key) (w.attr module key)
  /-- The project's binding is no revision's. -/
  revision : ∀ module, e.attr module names.revision = w.attr module names.revision

/-- **The containers** leave the modules of a revision. -/
theorem contained_ensureParentPackages (hwell : Wellformed w) (hidle : w.loading = []) :
    Contained names w (ensureParentPackages names w) := by
  obtain ⟨module, hmodule, hnew⟩ :=
    @entry_registerContainer (w.registerContainer [names.root]) names.container
  have hnext : w.next ≤ (w.registerContainer [names.root]).next := next_le_registerContainer
  have hkept : ∀ {w : LoaderState} {name other : ModuleName} {module : Obj},
      w.entry other = some module → (w.registerContainer name).entry other = some module := by
    intro w name other module hother
    unfold LoaderState.registerContainer
    split_ifs with hnone
    · rwa [LoaderState.entry_create_of_ne]
      rintro rfl
      rw [hother] at hnone
      cases hnone
    · exact hother
  have hbinding : bindingWrite (ensureParentPackages names w) names.container = bindingWrite
      ((w.registerContainer [names.root]).registerContainer names.container) names.container := by
    unfold bindingWrite ensureParentPackages
    rw [LoaderState.entry_bindToParent]
  refine ⟨hwell.registerContainer.registerContainer.bindToParent, ?_, fun name hbelow => ?_,
    fun name module hname => ?_, ⟨module, ?_, ?_⟩, fun other key => ?_, fun other => ?_⟩
  · simp [ensureParentPackages, hidle]
  · unfold ensureParentPackages
    rw [LoaderState.entry_bindToParent, entry_registerContainer_of_ne hbelow.ne_container,
      entry_registerContainer_of_ne hbelow.ne_root]
  · unfold ensureParentPackages
    rw [LoaderState.entry_bindToParent]
    exact hkept (hkept hname)
  · unfold ensureParentPackages
    rw [LoaderState.entry_bindToParent]
    exact hmodule
  · rw [entry_registerContainer_of_ne container_ne_root] at hnew
    rcases hnew with hold | ⟨hnone, rfl⟩
    · exact .inl hold
    · exact .inr ⟨hnone, hnext⟩
  · rw [hbinding]
    have h := @LoaderState.get_bindToParent
      ((w.registerContainer [names.root]).registerContainer names.container) names.container
      (.attr other key)
    simp only [LoaderState.get, attr_registerContainer] at h
    exact h
  · unfold ensureParentPackages
    rw [LoaderState.attr_bindToParent, if_neg, attr_registerContainer, attr_registerContainer]
    rintro ⟨-, hlast⟩
    exact names.apart (Option.some.inj hlast)

end Containers

/-! ## A failed import -/

section Failed

variable {names : RevisionName} {w w' : LoaderState} {events : List ImportEvent}
  {outcome : ImportOutcome}

theorem Settled.wellformed (hset : Settled names w) : Wellformed w :=
  ⟨hset.entry_lt, hset.attr_lt⟩

/-- What a call leaves that runs no project code. -/
theorem Restored.of_same (hentry : ∀ name, names.Below name → w'.entry name = w.entry name)
    (hkept : ∀ name module, w.entry name = some module → w'.entry name = some module)
    (hbound : binding names w' = binding names w)
    (hattr : ∀ name module, names.Below name → w'.entry name = some module → ∀ key,
      w'.attr module key = w.attr module key) : Restored names events w w' := by
  refine ⟨fun name hbelow => .inl (hentry name hbelow), .inl hbound,
    fun name module hbelow hname key => .inl (hattr name module hbelow hname key),
    fun name module hbelow hname key object hobject => ?_⟩
  by_cases hregistered : ∃ other, w.entry other = some object
  · obtain ⟨other, hother⟩ := hregistered
    exact .inl ⟨other, hkept other object hother⟩
  · rw [hattr name module hbelow hname key] at hobject
    exact .inr (.inl ⟨hobject, fun other hother => hregistered ⟨other, hother⟩⟩)

/-- The sweep takes out what was added. -/
theorem entry_sweepAdded {before : LoaderState} (name : ModuleName) :
    (sweepAdded names before w).entry name =
      if names.Below name ∧ before.entry name = none then none else w.entry name := by
  unfold sweepAdded
  dsimp only
  split
  · by_cases hpackage : before.entry names.package = none
    · rw [if_pos hpackage]
      rfl
    · rw [if_neg hpackage]
  · rfl

/-- It takes out the revision's binding where its package was new. -/
theorem binding_sweepAdded {before : LoaderState} {container : Obj}
    (hpackage : before.entry names.package = none)
    (hcontainer : w.entry names.container = some container) :
    binding names (sweepAdded names before w) = none := by
  have hentry : (sweepAdded names before w).entry names.container = some container := by
    rw [entry_sweepAdded, if_neg fun hgone => not_below_container hgone.1]
    exact hcontainer
  unfold binding
  rw [hentry, Option.bind_some]
  unfold sweepAdded
  dsimp only
  rw [if_neg (fun hgone => not_below_container hgone.1), hcontainer]
  dsimp only
  rw [if_pos hpackage, LoaderState.attr_setAttr, if_pos ⟨rfl, rfl⟩]

/-- Where the revision was not loaded before, nothing of it stays. -/
theorem restored_of_absent (hset : Settled names w) (hnone : w.entry names.package = none)
    {e : LoaderState} (hcontained : Contained names w e) {w₂ : LoaderState} {container : Obj}
    (hcontainer : w₂.entry names.container = some container) :
    Restored names events w (sweepAdded names e w₂) := by
  obtain ⟨habsent, hunbound⟩ := hset.absent hnone
  have hentries : ∀ name, names.Below name → (sweepAdded names e w₂).entry name = none := by
    intro name hbelow
    rw [entry_sweepAdded,
      if_pos ⟨hbelow, (hcontained.below name hbelow).trans (habsent name hbelow)⟩]
  refine ⟨fun name hbelow => .inl ?_, .inl ?_, fun name module hbelow hname => ?_,
    fun name module hbelow hname => ?_⟩
  · exact (hentries name hbelow).trans (habsent name hbelow).symm
  · rw [hunbound]
    exact binding_sweepAdded ((hcontained.below _ RevisionName.below_package).trans hnone)
      hcontainer
  · rw [hentries name hbelow] at hname
    cases hname
  · rw [hentries name hbelow] at hname
    cases hname

/-- Where the revision was loaded before, the sweep only takes out what was added. -/
theorem sweepAdded_of_present {e w₂ : LoaderState} (hsome : e.entry names.package ≠ none) :
    sweepAdded names e w₂ = { w₂ with
      entry := fun name => if names.Below name ∧ e.entry name = none then none else w₂.entry name
      loading := [] } := by
  unfold sweepAdded
  dsimp only
  split
  · rw [if_neg hsome]
  · rfl

theorem assign_of_mem {write : Write Place (Option Obj)} (hmem : write ∈ assignments names events)
    {module : Obj} {key : PyStr} (hplace : write.place = .attr module key) :
    .assign module key write.value ∈ events := by
  obtain ⟨event, hevent, hwrite⟩ := List.mem_flatMap.mp hmem
  cases event with
  | assign other key' value =>
    obtain rfl := List.mem_singleton.mp hwrite
    obtain ⟨rfl, rfl⟩ := Place.attr.inj hplace
    exact hevent
  | register below value =>
    obtain rfl := List.mem_singleton.mp hwrite
    cases hplace
  | start name => exact absurd hwrite List.not_mem_nil
  | finish name => exact absurd hwrite List.not_mem_nil
  | abort name => exact absurd hwrite List.not_mem_nil
  | allocate => exact absurd hwrite List.not_mem_nil

theorem register_of_mem {write : Write Place (Option Obj)} (hmem : write ∈ assignments names events)
    {name : ModuleName} (hplace : write.place = .entry name) :
    ∃ below, names.package ++ below = name ∧ .register below write.value ∈ events := by
  obtain ⟨event, hevent, hwrite⟩ := List.mem_flatMap.mp hmem
  cases event with
  | register below value =>
    obtain rfl := List.mem_singleton.mp hwrite
    exact ⟨below, Place.entry.inj hplace, hevent⟩
  | assign other key' value =>
    obtain rfl := List.mem_singleton.mp hwrite
    cases hplace
  | start name => exact absurd hwrite List.not_mem_nil
  | finish name => exact absurd hwrite List.not_mem_nil
  | abort name => exact absurd hwrite List.not_mem_nil
  | allocate => exact absurd hwrite List.not_mem_nil

/-- What a call leaves that raised, where the revision was loaded before. -/
structure Outlived (names : RevisionName) (w : LoaderState) (outcome : ImportOutcome)
    (w' : LoaderState) : Prop where
  entry : ∀ name, names.Below name → w.entry name ≠ none →
    w'.entry name = valueAfter (callLog names w outcome) (.entry name) (w.entry name)
  gone : ∀ name, names.Below name → w.entry name = none → w'.entry name = none
  kept : ∀ name module, ¬ names.Below name → w.entry name = some module →
    w'.entry name = some module
  attr : ∀ module key, w'.attr module key =
    valueAfter (callLog names w outcome) (.attr module key) (w.attr module key)
  own : ownWrites (callLog names w outcome) = assignments names outcome.events

theorem Outlived.kept_iff (h : Outlived names w outcome w') (place : Place)
    (hplace : w'.get place = valueAfter (callLog names w outcome) place (w.get place)) :
    Kept names outcome.events w w' place ↔
      Harmless (callLog names w outcome) place (w.get place) := by
  unfold Kept
  rw [hplace, ← h.own]
  exact valueAfter_kept_iff

/-- What a later import sees, where everything else is kept. -/
theorem Outlived.seen (h : Outlived names w outcome w') {module object : Obj} {key : PyStr}
    (hentries : ∀ name, names.Below name → Kept names outcome.events w w' (.entry name))
    (hattr : Kept names outcome.events w w' (.attr module key))
    (hobject : w'.attr module key = some object) : (∃ other, w'.entry other = some object) ∨
      (w.attr module key = some object ∧ ∀ other, w.entry other ≠ some object) ∨
      .assign module key (some object) ∈ outcome.events ∨
      ∃ below value, w.entry (names.package ++ below) = some object ∧
        .register below value ∈ outcome.events := by
  have hbefore : w.attr module key = some object ∨
      .assign module key (some object) ∈ outcome.events := by
    rcases hattr with hsame | hleft
    · exact .inl (hsame.symm.trans hobject)
    · rcases valueAfter_cases (hleft.symm.trans hobject) with hstart | ⟨write, hmem, hplace, hvalue⟩
      · exact .inl hstart.symm
      · exact .inr (hvalue ▸ assign_of_mem hmem hplace)
  rcases hbefore with hbefore | hassigned
  · by_cases hregistered : ∃ other, w.entry other = some object
    · obtain ⟨other, hother⟩ := hregistered
      by_cases hbelow : names.Below other
      · rcases hentries other hbelow with hsame | hleft
        · exact .inl ⟨other, hsame.trans hother⟩
        · rcases valueAfter_cases hleft.symm with hstart | ⟨write, hmem, hplace, -⟩
          · exact .inl ⟨other, hstart.trans hother⟩
          · obtain ⟨below, rfl, hevent⟩ := register_of_mem hmem hplace
            exact .inr (.inr (.inr ⟨below, write.value, hother, hevent⟩))
      · exact .inl ⟨other, h.kept other object hbelow hother⟩
    · exact .inr (.inl ⟨hbefore, fun other hother => hregistered ⟨other, hother⟩⟩)
  · exact .inr (.inr (.inl hassigned))

/-- Where the revision was loaded before, what survives is restored exactly when what the import
system wrote of it last is harmless. -/
theorem Outlived.restored_iff (h : Outlived names w outcome w') {container : Obj}
    (hcontainer : w.entry names.container = some container) :
    Restored names outcome.events w w' ↔ ∀ place, Surviving names w outcome place →
      Harmless (callLog names w outcome) place (w.get place) := by
  have hcontainer' := h.kept _ _ not_below_container hcontainer
  constructor
  · intro hrestored place hsurviving
    cases place with
    | entry name =>
      obtain ⟨hbelow, hsome⟩ := hsurviving
      exact (h.kept_iff (.entry name) (h.entry name hbelow hsome)).mp (hrestored.entries name hbelow)
    | attr module key =>
      refine (h.kept_iff (.attr module key) (h.attr module key)).mp ?_
      rcases hsurviving with ⟨hmodule, rfl⟩ | ⟨name, hbelow, hsome, hvalue⟩
      · obtain rfl := Option.some.inj (hcontainer.symm.trans hmodule)
        rcases hrestored.bound with hsame | ⟨other, hother, hkept⟩
        · unfold binding at hsame
          rw [hcontainer, hcontainer'] at hsame
          exact .inl hsame
        · obtain rfl := Option.some.inj (hcontainer'.symm.trans hother)
          exact hkept
      · exact hrestored.attrs name module hbelow ((h.entry name hbelow hsome).trans hvalue) key
  · intro hharmless
    have hentries : ∀ name, names.Below name →
        Kept names outcome.events w w' (.entry name) := by
      intro name hbelow
      by_cases hnone : w.entry name = none
      · exact .inl ((h.gone name hbelow hnone).trans hnone.symm)
      · exact (h.kept_iff (.entry name) (h.entry name hbelow hnone)).mpr
          (hharmless (.entry name) ⟨hbelow, hnone⟩)
    have hattrs : ∀ name module, names.Below name → w'.entry name = some module → ∀ key,
        Kept names outcome.events w w' (.attr module key) := by
      intro name module hbelow hname key
      have hsome : w.entry name ≠ none := by
        intro hnone
        rw [h.gone name hbelow hnone] at hname
        cases hname
      exact (h.kept_iff (.attr module key) (h.attr module key)).mpr (hharmless _ (.inr
        ⟨name, hbelow, hsome, (h.entry name hbelow hsome).symm.trans hname⟩))
    refine ⟨hentries, .inr ⟨container, hcontainer', ?_⟩, hattrs,
      fun name module hbelow hname key object hobject =>
        h.seen hentries (hattrs name module hbelow hname key) hobject⟩
    exact (h.kept_iff (.attr container names.revision) (h.attr container names.revision)).mpr
      (hharmless _ (.inl ⟨hcontainer, rfl⟩))

/-- The containers leave the revision's binding. -/
theorem Contained.binding {e : LoaderState} (h : Contained names w e) (hset : Settled names w) :
    binding names e = binding names w := by
  obtain ⟨container, hcontainer, hnew⟩ := h.container
  unfold Loader.binding
  rw [hcontainer, Option.bind_some, h.revision]
  rcases hnew with hold | ⟨hfresh, hle⟩
  · rw [hold, Option.bind_some]
  · rw [hfresh, Option.bind_none]
    by_contra hsome
    obtain ⟨value, hvalue⟩ := Option.ne_none_iff_exists'.mp hsome
    exact absurd (hset.attr_lt _ _ _ hvalue).1 (Nat.not_lt_of_le hle)

theorem valueAfter_bindingWrite_entry {name other : ModuleName} {value : Option Obj} :
    valueAfter (bindingWrite w name) (.entry other) value = value := by
  unfold bindingWrite
  split <;> rfl

/-- The log of a call that reaches the containers. -/
theorem outlived_of_run {e w₂ : LoaderState} (hcontained : Contained names w e)
    (hrun : e.run names outcome.events = some w₂)
    (hlog : callLog names w outcome =
      bindingWrite e names.container ++ e.log names outcome.events)
    (hentry : ∀ name, w'.entry name = if names.Below name ∧ e.entry name = none then none
      else w₂.entry name) (hattr : w'.attr = w₂.attr) : Outlived names w outcome w' := by
  refine ⟨fun name hbelow hsome => ?_, fun name hbelow hnone => ?_,
    fun name module hbelow hname => ?_, fun module key => ?_, ?_⟩
  · have hstays : ¬ (names.Below name ∧ e.entry name = none) := fun hgone =>
      hsome ((hcontained.below name hbelow).symm.trans hgone.2)
    have hend : w₂.entry name = _ := get_run hrun (.entry name)
    rw [hentry, if_neg hstays, hlog, valueAfter_append, valueAfter_bindingWrite_entry, hend,
      LoaderState.get, hcontained.below name hbelow]
  · rw [hentry, if_pos ⟨hbelow, (hcontained.below name hbelow).trans hnone⟩]
  · rw [hentry, if_neg fun hgone => hbelow hgone.1]
    refine entry_run hrun (hcontained.kept name module hname) (by simp [hcontained.idle]) ?_
    rintro below value - rfl
    exact hbelow (List.prefix_append _ _)
  · have hend : w₂.attr module key = _ := get_run hrun (.attr module key)
    rw [hattr, hlog, valueAfter_append, hend, LoaderState.get, hcontained.attr]
  · have hown := ownWrites_log hrun
    unfold ownWrites at hown ⊢
    rw [hlog, List.filter_append, hown]
    have hbinding := @ownWrites_bindingWrite e names.container
    unfold ownWrites at hbinding
    rw [hbinding, List.nil_append]

end Failed

/-! ## Reachable states -/

section Reachable

variable {names : RevisionName} {w w' : LoaderState}

/-- What the boundary opens in. -/
theorem Contained.enterBoundary {e : LoaderState} (h : Contained names w e) :
    Wellformed (enterBoundary names e) ∧ (enterBoundary names e).loading = [] ∧
      (∃ module, (enterBoundary names e).entry names.package = some module) ∧
        ∃ module, (enterBoundary names e).entry names.container = some module := by
  obtain ⟨container, hcontainer, -⟩ := h.container
  unfold Loader.enterBoundary
  split_ifs with hnone
  · unfold registerRevisionPackage
    rw [LoaderState.entry_bindToParent, LoaderState.loading_bindToParent]
    exact ⟨(h.wellformed.create names.package).bindToParent, h.idle,
      ⟨_, LoaderState.entry_create⟩, container, (LoaderState.entry_create_of_ne
        RevisionName.below_package.ne_container.symm).trans hcontainer⟩
  · exact ⟨h.wellformed, h.idle, Option.ne_none_iff_exists'.mp hnone, container, hcontainer⟩

theorem Wellformed.sweepAdded (h : Wellformed w) (before : LoaderState) :
    Wellformed (sweepAdded names before w) := by
  have hswept := h.without fun name => names.Below name ∧ before.entry name = none
  unfold Loader.sweepAdded
  dsimp only
  split
  next container hcontainer =>
    rw [if_neg (fun hgone => not_below_container hgone.1)] at hcontainer
    split_ifs
    · exact hswept.setAttr (h.entry_lt _ _ hcontainer) (by simp)
    · exact hswept
  · exact hswept

theorem loading_sweepAdded {before : LoaderState} : (sweepAdded names before w).loading = [] := by
  unfold sweepAdded
  dsimp only
  split
  · by_cases hpackage : before.entry names.package = none
    · rw [if_pos hpackage]
      rfl
    · rw [if_neg hpackage]
  · rfl

/-- A call that raises leaves a settled state: the sweep takes out what it added, and where the
revision was not loaded before nothing of it stays. -/
theorem Settled.importScriptFile_raised (hset : Settled names w) {events : List ImportEvent}
    (hproject : ∀ value, .register [] value ∉ events) {ok : Bool}
    (h : importScriptFile names w (.raised events) = some (ok, w')) : Settled names w' := by
  have hcontained := @contained_ensureParentPackages w names hset.wellformed hset.idle
  obtain ⟨hwell, hidle, ⟨package, hpackage⟩, container, hcontainer⟩ := hcontained.enterBoundary
  obtain ⟨w₂, hrun, heq⟩ := Option.map_eq_some_iff.mp h
  cases heq
  have hcontainer₂ := entry_run hrun hcontainer (by simp [hidle]) fun below _ _ =>
    package_append_ne_container below
  have hwell' : Wellformed (sweepAdded names (ensureParentPackages names w) w₂) :=
    (hwell.run hrun).sweepAdded _
  have hheld : (sweepAdded names (ensureParentPackages names w) w₂).entry names.container ≠
      none := by
    rw [entry_sweepAdded, if_neg (fun hgone => not_below_container hgone.1), hcontainer₂]
    exact Option.some_ne_none _
  refine ⟨hwell'.entry_lt, hwell'.attr_lt, loading_sweepAdded, fun _ => hheld, fun hgone => ?_⟩
  have hpackage' := hcontained.below _ RevisionName.below_package
  by_cases hnone : w.entry names.package = none
  · refine ⟨fun name hbelow => ?_, binding_sweepAdded (hpackage'.trans hnone) hcontainer₂⟩
    rw [entry_sweepAdded, if_pos ⟨hbelow, (hcontained.below name hbelow).trans
      ((hset.absent hnone).1 name hbelow)⟩]
  · -- the package stays
    rw [entry_sweepAdded, if_neg fun hswept => hnone (hpackage'.symm.trans hswept.2)] at hgone
    have hkept := entry_run hrun hpackage (by simp [hidle]) fun below value hmem heq => by
      obtain rfl := List.append_right_eq_self.mp heq
      exact hproject value hmem
    rw [hkept] at hgone
    cases hgone

/-- **A call** leaves a settled state, whether it returns or raises, unless project code writes the
entry of the package itself. -/
theorem Settled.importScriptFile (hset : Settled names w) {outcome : ImportOutcome} {ok : Bool}
    (hproject : ∀ value, .register [] value ∉ outcome.events)
    (h : importScriptFile names w outcome = some (ok, w')) : Settled names w' := by
  have hcontained := @contained_ensureParentPackages w names hset.wellformed hset.idle
  obtain ⟨hwell, hidle, ⟨package, hpackage⟩, container, hcontainer⟩ := hcontained.enterBoundary
  cases outcome with
  | refused =>
    cases h
    exact hset
  | undelivered =>
    cases h
    obtain ⟨module, hmodule, hnew⟩ := hcontained.container
    refine ⟨hcontained.wellformed.entry_lt, hcontained.wellformed.attr_lt, hcontained.idle,
      fun _ => ?_, fun hnone => ?_⟩
    · rw [hmodule]
      exact Option.some_ne_none _
    · have hnone := (hcontained.below _ RevisionName.below_package).symm.trans hnone
      obtain ⟨habsent, hunbound⟩ := hset.absent hnone
      refine ⟨fun name hbelow => (hcontained.below name hbelow).trans (habsent name hbelow), ?_⟩
      rw [← hunbound]
      exact hcontained.binding hset
  | imported events =>
    obtain ⟨w₂, hrun, heq⟩ := Option.map_eq_some_iff.mp h
    cases heq
    have hwell₂ := hwell.run hrun
    refine ⟨hwell₂.entry_lt, hwell₂.attr_lt, rfl, fun _ => ?_, fun hnone => ?_⟩
    · show w₂.entry names.container ≠ none
      rw [entry_run hrun hcontainer (by simp [hidle]) fun below _ _ =>
        package_append_ne_container below]
      exact Option.some_ne_none _
    · have hkept := entry_run hrun hpackage (by simp [hidle]) fun below value hmem heq => by
        obtain rfl := List.append_right_eq_self.mp heq
        exact hproject value hmem
      exact absurd (hkept.symm.trans hnone) (Option.some_ne_none _)
  | raised events => exact hset.importScriptFile_raised hproject h

/-- **Unloading** leaves a settled state. -/
theorem Settled.unloadRevision (hset : Settled names w) :
    Settled names (unloadRevision names w) := by
  have hgone := hset.wellformed.without fun name => names.Below name
  unfold Loader.unloadRevision
  dsimp only
  rw [if_neg not_below_container]
  cases hcontainer : w.entry names.container with
  | none =>
    dsimp only
    refine ⟨hgone.entry_lt, hgone.attr_lt, hset.idle, fun hsome => ?_, fun _ =>
      ⟨fun name hbelow => if_pos hbelow, ?_⟩⟩
    · exact absurd (if_pos RevisionName.below_package) hsome
    · unfold Loader.binding
      dsimp only
      rw [if_neg not_below_container, hcontainer, Option.bind_none]
  | some container =>
    dsimp only
    have hwell := @Wellformed.setAttr _ hgone container names.revision none
      (hset.entry_lt _ _ hcontainer) (by simp)
    refine ⟨hwell.entry_lt, hwell.attr_lt, hset.idle, fun hsome => ?_, fun _ =>
      ⟨fun name hbelow => if_pos hbelow, ?_⟩⟩
    · exact absurd (if_pos RevisionName.below_package) hsome
    · unfold Loader.binding
      have hstill : (LoaderState.setAttr { w with
          entry := fun name => if names.Below name then none else w.entry name } container
            names.revision none).entry names.container = some container :=
        (if_neg not_below_container).trans hcontainer
      rw [hstill, Option.bind_some, LoaderState.attr_setAttr, if_pos ⟨rfl, rfl⟩]

end Reachable

/-! ## A helper that is left behind -/

section Example

/-- A revision `r` of a project `p`. -/
def exampleNames : RevisionName :=
  ⟨py "_netbox_scripts_runtime", py "p_0", py "r_0", by decide⟩

/-- A module of it. -/
def exampleFile (name : String) : ModuleName := exampleNames.package ++ [py name]

/-- A process that has imported nothing. -/
def emptyProcess : LoaderState := ⟨fun _ => none, fun _ _ => none, 0, []⟩

theorem settled_emptyProcess : Settled exampleNames emptyProcess :=
  ⟨fun _ _ h => absurd h (by simp [emptyProcess]), fun _ _ _ h => absurd h (by simp [emptyProcess]),
    rfl, fun h => absurd rfl h, fun _ => ⟨fun _ _ => rfl, rfl⟩⟩

/-- A first script file is imported. -/
def firstImport : ImportOutcome :=
  .imported [.start (exampleFile "first"), .finish (exampleFile "first")]

/-- A second one imports `helper` and raises. -/
def secondImport : ImportOutcome :=
  .raised [.start (exampleFile "second"), .start (exampleFile "helper"),
    .finish (exampleFile "helper"), .abort (exampleFile "second")]

/-- Another assigns an attribute of the package, imports `helper`, deletes what that was bound as,
and raises. -/
def thirdImport : ImportOutcome :=
  .raised [.start (exampleFile "third"), .assign 2 (py "shared") (some 4),
    .start (exampleFile "helper"), .finish (exampleFile "helper"), .assign 2 (py "helper") none,
    .abort (exampleFile "third")]

/-- The process after the first import. -/
def loadedProcess : LoaderState :=
  ((importScriptFile exampleNames emptyProcess firstImport).map Prod.snd).getD emptyProcess

theorem settled_loadedProcess : Settled exampleNames loadedProcess :=
  settled_emptyProcess.importScriptFile (by simp [firstImport, ImportOutcome.events])
    (rfl : importScriptFile exampleNames emptyProcess firstImport = some (true, loadedProcess))

/-- The process after another import that raised. -/
def sweptProcess (outcome : ImportOutcome) : LoaderState :=
  ((importScriptFile exampleNames loadedProcess outcome).map Prod.snd).getD emptyProcess

/-- What the third import writes until it raises. -/
theorem callLog_thirdImport : callLog exampleNames loadedProcess thirdImport =
    [⟨.attr 0 (py "p_0"), some 1, false⟩, ⟨.entry (exampleFile "third"), some 4, false⟩,
      ⟨.attr 2 (py "shared"), some 4, true⟩, ⟨.entry (exampleFile "helper"), some 5, false⟩,
      ⟨.attr 2 (py "helper"), some 5, false⟩, ⟨.attr 2 (py "helper"), none, true⟩,
      ⟨.entry (exampleFile "third"), none, false⟩] := by
  decide +kernel

end Example

end NetBoxScripts.Loader
