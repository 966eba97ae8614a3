import NetBoxScripts.Python.Ordered
import NetBoxScripts.Python.Raise
import NetBoxScripts.Runtime.Introspection
import Mathlib.Data.List.Sort

/-!
# Discovery

`runtime/discovery.py`: the scripts that one imported script file publishes, those that its
`script_order` lists and those that its body defines. Each read of what project code made may
raise; what is read twice in one call is the same twice, and classes are compared by identity.

## Main definitions

* `ScriptClass`, `RevisionModule`: a class and an imported module, as they are read
* `discoverScripts`: what a module publishes, the refusal, or what a read has raised
* `Quiet`: nothing is raised but a refusal

## Main results

* `foldl_addUnpublished`: the loop over the namespace adds the classes that are not listed
* `pairwise_boundBefore`: it adds them in the order of their first names
* `quiet_orderEntriesFrom`, `quiet_foldlM_addDefined`, `quiet_mapM_publish`: when the three loops
  raise nothing but refusals
-/

namespace NetBoxScripts.Discovery

/-- `DiscoveryError`: the message, the code, and the class where there is one. -/
structure DiscoveryError where
  message : PyStr
  code : PyStr
  name : Option PyStr
  deriving DecidableEq, Repr

/-- How discovery ends without a list. -/
inductive Failure
  | refused (error : DiscoveryError)
  /-- Any other exception, from a read of what project code made. -/
  | raised (error : Raised)
  deriving DecidableEq, Repr

/-- What `__module__` or `__name__` may be bound to: a text, or an object of another type. -/
inductive Attribute
  | text (value : PyStr)
  | other (typeName : PyStr) (value : ℕ)
  deriving DecidableEq, Repr

/-- `value.startswith(start)` -/
def Attribute.startsWith (start : PyStr) : Attribute → Except Raised Bool
  | .text value => .ok (start.isPrefixOf value)
  | .other typeName _ => .error ⟨py "AttributeError",
      some (py "'" ++ typeName ++ py "' object has no attribute 'startswith'"), none⟩

/-- `value[length:]` -/
def Attribute.drop (length : ℕ) : Attribute → Except Raised PyStr
  | .text value => .ok (value.drop length)
  | .other typeName _ => .error ⟨py "TypeError",
      some (py "'" ++ typeName ++ py "' object is not subscriptable"), none⟩

/-- What discovery reads of a class. Its metaclass and its descriptors may raise. -/
structure ScriptClass where
  /-- `cls.__module__` -/
  module : Except Raised Attribute
  /-- `cls.__name__` -/
  name : Except Raised PyStr
  /-- `getattr(cls, '__name__', None)` -/
  shownName : Except Raised (Option PyStr)
  /-- `issubclass(cls, Script)` -/
  isScript : Except Raised Bool
  /-- `hash(cls)` -/
  hashed : Except Raised Unit
  /-- `getattr(cls, '_netbox_script_report', False)` -/
  isReport : Except Raised Bool
  /-- `cls.run is not BaseScript.run` -/
  definesRun : Except Raised Bool
  /-- `dir(cls)`, each name with whether its value is callable -/
  attributes : Except Raised (List (PyStr × Except Raised Bool))
  /-- Setting the identity markers. -/
  stamped : Except Raised Unit

/-- A Python object, as `isinstance(value, type)` tells it. -/
inductive PyObject (Cls : Type)
  | cls (c : Cls)
  /-- Not a class, with `getattr(value, '__name__', None)`. -/
  | other (name : Except Raised (Option PyStr))
  /-- The test raises, or calls a class what `issubclass` does not take. -/
  | untold (error : Raised)

/-- `getattr(module, 'script_order', ())` -/
inductive ScriptOrder (Cls : Type)
  /-- The entries, and how the iteration over them ends. -/
  | sequence (entries : List (PyObject Cls)) (ending : Except Raised Unit)
  | notSequence

/-- An imported module. Its names are what its body left bound, `__name__` among them. -/
structure RevisionModule (Cls : Type) where
  /-- `module.__name__` -/
  name : Except Raised Attribute
  /-- `vars(module)` -/
  bindings : List (PyStr × PyObject Cls)
  nodup : (bindings.map Prod.fst).Nodup
  /-- What `sorted(vars(module).items())` raises, where a key is not a text. -/
  unsortable : Option Raised
  scriptOrder : Except Raised (ScriptOrder Cls)

/-- `DiscoveredScript`, with the logger name that its class is stamped with. -/
structure DiscoveredScript (Cls : Type) where
  cls : Cls
  logicalModule : PyStr
  name : PyStr
  loggerName : PyStr
  deriving DecidableEq

/-- `(result.logical_module, result.name)` -/
def DiscoveredScript.identity {Cls : Type} (script : DiscoveredScript Cls) : PyStr × PyStr :=
  (script.logicalModule, script.name)

/-- `f'"{name}"'` -/
def quoted (name : PyStr) : PyStr := py "\"" ++ name ++ py "\""

/-- A read of what project code made. -/
def read {α : Type} (value : Except Raised α) : Except Failure α := value.mapError .raised

section Discover

variable {Cls : Type} [DecidableEq Cls] (facts : Cls → ScriptClass)

/-- The checks of one `script_order` entry, where `seen` are the entries before it. -/
def orderEntry (revisionPrefix : PyStr) (seen : List Cls) :
    PyObject Cls → Except Failure Cls
  | .untold error => .error (.raised error)
  | .other name => do
    let name ← read name
    .error (.refused ⟨py "Every script_order entry must be a Script subclass.",
      py "not_a_script", name⟩)
  | .cls c => do
    let isScript ← read (facts c).isScript
    if isScript = false then
      let name ← read (facts c).shownName
      .error (.refused ⟨py "Every script_order entry must be a Script subclass.",
        py "not_a_script", name⟩)
    else
      let module ← read (facts c).module
      let below ← read (module.startsWith (revisionPrefix ++ py "."))
      if below = false then
        let name ← read (facts c).name
        .error (.refused ⟨quoted name ++ py (" is not defined in a module of this revision. " ++
          "Classes from installed packages or the package root cannot be published."),
          py "not_revision_local", some name⟩)
      else
        read (facts c).hashed
        if c ∈ seen then
          let name ← read (facts c).name
          .error (.refused ⟨quoted name ++ py " appears more than once in script_order.",
            py "duplicate_entry", some name⟩)
        else return c

/-- The loop of `_order_entries`. -/
def orderEntriesFrom (revisionPrefix : PyStr) (ending : Except Raised Unit) :
    List Cls → List (PyObject Cls) → Except Failure (List Cls)
  | _, [] => do
    read ending
    return []
  | seen, entry :: entries => do
    let c ← orderEntry facts revisionPrefix seen entry
    let rest ← orderEntriesFrom revisionPrefix ending (c :: seen) entries
    return c :: rest

/-- `_order_entries(module, revision_prefix)` -/
def orderEntries (revisionPrefix : PyStr) : ScriptOrder Cls → Except Failure (List Cls)
  | .notSequence => .error (.refused
      ⟨py "script_order must be a list or tuple of script classes.", py "invalid_script_order",
        none⟩)
  | .sequence entries ending => orderEntriesFrom facts revisionPrefix ending [] entries

/-- `any(name.startswith('test_') and callable(getattr(cls, name, None)) for name in dir(cls))` -/
def anyTest : List (PyStr × Except Raised Bool) → Except Raised Bool
  | [] => return false
  | (name, callable) :: attributes =>
    if (py "test_").isPrefixOf name then do
      if ← callable then return true
      anyTest attributes
    else anyTest attributes

/-- `_report_style(cls)` -/
def ScriptClass.reportStyle (cls : ScriptClass) : Except Raised Bool := do
  if ← cls.isReport then return true
  if ← cls.definesRun then return false
  anyTest (← cls.attributes)

/-- `LOGGER_PREFIX` -/
def loggerPrefix : PyStr := py "netbox.plugins.netbox_scripts.scripts"

/-- `_publish(cls, project_key, revision_prefix)` -/
def publish (projectKey revisionPrefix : PyStr) (c : Cls) :
    Except Failure (DiscoveredScript Cls) := do
  let cls := facts c
  if ← read cls.reportStyle then
    let name ← read cls.name
    .error (.refused ⟨quoted name ++ py (" is a report rather than a Script. Reports are not " ++
      "supported. Give the class a run(self, data, commit) method to publish it as a script."),
      py "report_style", some name⟩)
  else
    let module ← read cls.module
    let logicalModule ← read (module.drop (revisionPrefix.length + 1))
    read cls.stamped
    let name ← read cls.name
    return ⟨c, logicalModule, name, List.intercalate (py ".")
      [loggerPrefix, projectKey, logicalModule, name]⟩

/-- `defined_here`, with the class. -/
def definedHere (name : Except Raised Attribute) : PyObject Cls → Except Failure (Option Cls)
  | .untold error => .error (.raised error)
  | .other _ => return none
  | .cls c => do
    if ← read (facts c).isScript then
      let module ← read (facts c).module
      let name ← read name
      return if module = name then some c else none
    else return none

/-- One binding of the namespace: a class that is defined here and not published yet is added. -/
def addDefined (name : Except Raised Attribute) (published : List Cls)
    (binding : PyStr × PyObject Cls) : Except Failure (List Cls) := do
  match ← definedHere facts name binding.2 with
  | none => return published
  | some c =>
    read (facts c).hashed
    return if c ∈ published then published else published ++ [c]

omit [DecidableEq Cls] in
/-- `_require_distinct_identities(results)`, where `seen` are the identities before. -/
def requireDistinctFrom : List (PyStr × PyStr) → List (DiscoveredScript Cls) →
    Except Failure Unit
  | _, [] => .ok ()
  | seen, result :: results =>
    if result.identity ∈ seen then
      .error (.refused ⟨py "Two script classes publish as " ++
        quoted (result.logicalModule ++ py "." ++ result.name) ++ py ".",
        py "duplicate_identity", some result.name⟩)
    else requireDistinctFrom (result.identity :: seen) results

variable {revisionPrefix : PyStr}

/-- `sorted(vars(module).items())`, where every key is a text. -/
def RevisionModule.sortedBindings (module : RevisionModule Cls) : List (PyStr × PyObject Cls) :=
  module.bindings.insertionSort fun a b => a.1 ≤ b.1

/-- `discover_scripts(module, project_key=..., revision_prefix=...)` -/
def discoverScripts (projectKey revisionPrefix : PyStr) (module : RevisionModule Cls) :
    Except Failure (List (DiscoveredScript Cls)) := do
  let order ← orderEntries facts revisionPrefix (← read module.scriptOrder)
  read (module.unsortable.elim (.ok ()) .error)
  let published ← module.sortedBindings.foldlM (addDefined facts module.name) order
  let results ← published.mapM (publish facts projectKey revisionPrefix)
  requireDistinctFrom [] results
  return results

/-! ## Raising nothing but refusals -/

section Quiet

variable {α β : Type}

/-- A read that returns. -/
def Reads (value : Except Raised α) : Prop := ∃ a, value = .ok a

/-- Nothing but a refusal is raised. -/
def Quiet (result : Except Failure α) : Prop := ∀ error, result ≠ .error (.raised error)

theorem quiet_ok (a : α) : Quiet (.ok a : Except Failure α) := fun _ h => by cases h

theorem quiet_refused (error : DiscoveryError) :
    Quiet (.error (.refused error) : Except Failure α) := fun _ h => by cases h

theorem not_quiet_raised (error : Raised) :
    ¬ Quiet (.error (.raised error) : Except Failure α) := fun h => h error rfl

theorem read_eq_ok {value : Except Raised α} {a : α} : read value = .ok a ↔ value = .ok a := by
  cases value <;> simp [read, Except.mapError]

theorem quiet_read {value : Except Raised α} : Quiet (read value) ↔ Reads value := by
  cases value with
  | error error => exact iff_of_false (not_quiet_raised error) fun ⟨_, h⟩ => by cases h
  | ok a => exact iff_of_true (quiet_ok a) ⟨a, rfl⟩

theorem quiet_bind {x : Except Failure α} {f : α → Except Failure β} :
    Quiet (x >>= f) ↔ Quiet x ∧ ∀ a, x = .ok a → Quiet (f a) := by
  cases x with
  | ok a =>
    refine ⟨fun h => ⟨quiet_ok a, fun b hb => ?_⟩, fun h => h.2 a rfl⟩
    cases hb
    exact h
  | error failure =>
    cases failure with
    | refused error =>
      exact iff_of_true (quiet_refused error) ⟨quiet_refused error, fun _ h => by cases h⟩
    | raised error => exact iff_of_false (not_quiet_raised error) fun h => h.1 error rfl

theorem quiet_read_bind {value : Except Raised α} {f : α → Except Failure β} :
    Quiet (read value >>= f) ↔ ∃ a, value = .ok a ∧ Quiet (f a) := by
  rw [quiet_bind, quiet_read]
  constructor
  · rintro ⟨⟨a, ha⟩, h⟩
    exact ⟨a, ha, h a (read_eq_ok.mpr ha)⟩
  · rintro ⟨a, ha, h⟩
    refine ⟨⟨a, ha⟩, fun b hb => ?_⟩
    obtain rfl : a = b := Except.ok.inj (ha.symm.trans (read_eq_ok.mp hb))
    exact h

theorem read_bind_eq_ok {value : Except Raised α} {f : α → Except Failure β} {b : β} :
    read value >>= f = .ok b ↔ ∃ a, value = .ok a ∧ f a = .ok b := by
  rw [Except.bind_eq_ok_iff]
  exact exists_congr fun a => and_congr_left fun _ => read_eq_ok

end Quiet

/-! ## What is listed -/

section Order

/-- A class that `script_order` may list. -/
def ScriptClass.Listable (revisionPrefix : PyStr) (cls : ScriptClass) : Prop :=
  cls.isScript = .ok true ∧ cls.hashed = .ok () ∧ ∃ module, cls.module = .ok (.text module) ∧
    (revisionPrefix ++ py ".").isPrefixOf module = true

/-- What is read of an entry, up to what refuses it, can be read. -/
def QuietEntry (facts : Cls → ScriptClass) (revisionPrefix : PyStr) (seen : List Cls) :
    PyObject Cls → Prop
  | .untold _ => False
  | .other name => Reads name
  | .cls c =>
    (facts c).isScript = .ok false ∧ Reads (facts c).shownName ∨
      (facts c).isScript = .ok true ∧ ∃ module, (facts c).module = .ok (.text module) ∧
        if (revisionPrefix ++ py ".").isPrefixOf module then
          (facts c).hashed = .ok () ∧ (c ∈ seen → Reads (facts c).name)
        else Reads (facts c).name

/-- Each entry up to the first that is refused can be read, and the end of the sequence where none
is. -/
def QuietEntries (facts : Cls → ScriptClass) (revisionPrefix : PyStr) (ending : Except Raised Unit) :
    List Cls → List (PyObject Cls) → Prop
  | _, [] => Reads ending
  | seen, entry :: entries => QuietEntry facts revisionPrefix seen entry ∧
    ∀ c, entry = .cls c → (facts c).Listable revisionPrefix → c ∉ seen →
      QuietEntries facts revisionPrefix ending (c :: seen) entries

variable {facts} {seen order : List Cls} {entries : List (PyObject Cls)}
  {ending : Except Raised Unit}

theorem Attribute.startsWith_eq_ok {start : PyStr} {value : Attribute} {below : Bool} :
    value.startsWith start = .ok below ↔ ∃ module, value = .text module ∧
      start.isPrefixOf module = below := by
  cases value with
  | text module => simp [Attribute.startsWith]
  | other typeName value => simp [Attribute.startsWith]

theorem Attribute.drop_eq_ok {length : ℕ} {value : Attribute} {rest : PyStr} :
    value.drop length = .ok rest ↔ ∃ module, value = .text module ∧
      List.drop length module = rest := by
  cases value with
  | text module => simp [Attribute.drop]
  | other typeName value => simp [Attribute.drop]

theorem orderEntry_eq_ok {entry : PyObject Cls} {c : Cls} :
    orderEntry facts revisionPrefix seen entry = .ok c ↔
      entry = .cls c ∧ (facts c).Listable revisionPrefix ∧ c ∉ seen := by
  cases entry with
  | untold error => simp [orderEntry]
  | other name =>
    simp only [orderEntry, read_bind_eq_ok]
    simp
  | cls d =>
    simp only [orderEntry, read_bind_eq_ok]
    constructor
    · rintro ⟨isScript, hscript, h⟩
      cases isScript with
      | false =>
        rw [if_pos rfl, read_bind_eq_ok] at h
        obtain ⟨name, -, h⟩ := h
        cases h
      | true =>
        rw [if_neg Bool.noConfusion, read_bind_eq_ok] at h
        obtain ⟨module, hmodule, h⟩ := h
        obtain ⟨below, hbelow, h⟩ := read_bind_eq_ok.mp h
        obtain ⟨module, rfl, hbelowPrefix⟩ := Attribute.startsWith_eq_ok.mp hbelow
        cases below with
        | false =>
          rw [if_pos rfl, read_bind_eq_ok] at h
          obtain ⟨name, -, h⟩ := h
          cases h
        | true =>
          rw [if_neg Bool.noConfusion, read_bind_eq_ok] at h
          obtain ⟨⟨⟩, hhashed, h⟩ := h
          split_ifs at h with hseen
          · obtain ⟨name, -, h⟩ := read_bind_eq_ok.mp h
            cases h
          · cases h
            exact ⟨rfl, ⟨hscript, hhashed, module, hmodule, hbelowPrefix⟩, hseen⟩
    · rintro ⟨hentry, ⟨hscript, hhashed, module, hmodule, hbelow⟩, hseen⟩
      cases hentry
      refine ⟨true, hscript, ?_⟩
      rw [if_neg Bool.noConfusion, read_bind_eq_ok]
      refine ⟨_, hmodule, read_bind_eq_ok.mpr ⟨true, Attribute.startsWith_eq_ok.mpr
        ⟨module, rfl, hbelow⟩, ?_⟩⟩
      rw [if_neg Bool.noConfusion, read_bind_eq_ok]
      exact ⟨(), hhashed, if_neg hseen⟩

theorem quiet_orderEntry {entry : PyObject Cls} :
    Quiet (orderEntry facts revisionPrefix seen entry) ↔
      QuietEntry facts revisionPrefix seen entry := by
  cases entry with
  | untold error => exact iff_of_false (not_quiet_raised error) id
  | other name =>
    simp only [orderEntry, quiet_read_bind, quiet_refused, and_true]
    rfl
  | cls d =>
    simp only [orderEntry, quiet_read_bind, QuietEntry]
    constructor
    · rintro ⟨isScript, hscript, h⟩
      cases isScript with
      | false =>
        rw [if_pos rfl, quiet_read_bind] at h
        obtain ⟨name, hname, -⟩ := h
        exact .inl ⟨hscript, name, hname⟩
      | true =>
        rw [if_neg Bool.noConfusion, quiet_read_bind] at h
        obtain ⟨module, hmodule, h⟩ := h
        obtain ⟨below, hbelow, h⟩ := quiet_read_bind.mp h
        obtain ⟨module, rfl, rfl⟩ := Attribute.startsWith_eq_ok.mp hbelow
        refine .inr ⟨hscript, module, hmodule, ?_⟩
        cases hbelowPrefix : (revisionPrefix ++ py ".").isPrefixOf module with
        | false =>
          rw [hbelowPrefix, if_pos rfl, quiet_read_bind] at h
          obtain ⟨name, hname, -⟩ := h
          exact ⟨name, hname⟩
        | true =>
          rw [hbelowPrefix, if_neg Bool.noConfusion, quiet_read_bind] at h
          obtain ⟨⟨⟩, hhashed, h⟩ := h
          refine ⟨hhashed, fun hseen => ?_⟩
          rw [if_pos hseen, quiet_read_bind] at h
          obtain ⟨name, hname, -⟩ := h
          exact ⟨name, hname⟩
    · rintro (⟨hscript, name, hname⟩ | ⟨hscript, module, hmodule, h⟩)
      · refine ⟨false, hscript, ?_⟩
        rw [if_pos rfl, quiet_read_bind]
        exact ⟨name, hname, quiet_refused _⟩
      · refine ⟨true, hscript, ?_⟩
        rw [if_neg Bool.noConfusion, quiet_read_bind]
        refine ⟨_, hmodule, quiet_read_bind.mpr ⟨_, Attribute.startsWith_eq_ok.mpr
          ⟨module, rfl, rfl⟩, ?_⟩⟩
        split_ifs at h with hbelow
        · obtain ⟨hhashed, hseen⟩ := h
          rw [if_neg (by rw [hbelow]; exact Bool.noConfusion), quiet_read_bind]
          refine ⟨(), hhashed, ?_⟩
          split_ifs with hmem
          · obtain ⟨name, hname⟩ := hseen hmem
            exact quiet_read_bind.mpr ⟨name, hname, quiet_refused _⟩
          · exact quiet_ok _
        · obtain ⟨name, hname⟩ := h
          rw [if_pos ((Bool.not_eq_true _).mp hbelow), quiet_read_bind]
          exact ⟨name, hname, quiet_refused _⟩

/-- The entries are classes of the revision, and each is listed once. -/
theorem orderEntriesFrom_eq_ok :
    orderEntriesFrom facts revisionPrefix ending seen entries = .ok order ↔
      ending = .ok () ∧ entries = order.map .cls ∧ order.Nodup ∧
        ∀ c ∈ order, (facts c).Listable revisionPrefix ∧ c ∉ seen := by
  induction entries generalizing seen order with
  | nil =>
    rw [orderEntriesFrom, read_bind_eq_ok]
    constructor
    · rintro ⟨⟨⟩, hending, h⟩
      cases h
      exact ⟨hending, rfl, List.nodup_nil, fun c hc => absurd hc List.not_mem_nil⟩
    · rintro ⟨hending, hentries, -, -⟩
      obtain rfl := List.map_eq_nil_iff.mp hentries.symm
      exact ⟨(), hending, rfl⟩
  | cons entry entries ih =>
    rw [orderEntriesFrom, Except.bind_eq_ok_iff]
    constructor
    · rintro ⟨c, hc, h⟩
      obtain ⟨rest, hrest, h⟩ := Except.bind_eq_ok_iff.mp h
      cases h
      obtain ⟨rfl, hlistable, hnew⟩ := orderEntry_eq_ok.mp hc
      obtain ⟨hending, rfl, hnodup, hall⟩ := ih.mp hrest
      refine ⟨hending, rfl, List.nodup_cons.mpr ⟨fun hmem => ?_, hnodup⟩, fun d hd => ?_⟩
      · exact (hall c hmem).2 List.mem_cons_self
      · rcases List.mem_cons.mp hd with rfl | hd
        · exact ⟨hlistable, hnew⟩
        · exact ⟨(hall d hd).1, fun hmem => (hall d hd).2 (List.mem_cons_of_mem _ hmem)⟩
    · rintro ⟨hending, hentries, hnodup, hall⟩
      cases order with
      | nil => cases hentries
      | cons c rest =>
        obtain ⟨hentry, hrest⟩ := List.cons.inj hentries
        obtain ⟨hc, hnodup⟩ := List.nodup_cons.mp hnodup
        have hfirst := hall c List.mem_cons_self
        refine ⟨c, orderEntry_eq_ok.mpr ⟨hentry, hfirst⟩, Except.bind_eq_ok_iff.mpr ⟨rest,
          ih.mpr ⟨hending, hrest, hnodup, fun d hd => ?_⟩, rfl⟩⟩
        have hlater := hall d (List.mem_cons_of_mem c hd)
        refine ⟨hlater.1, fun hmem => ?_⟩
        rcases List.mem_cons.mp hmem with rfl | hmem
        · exact hc hd
        · exact hlater.2 hmem

theorem quiet_orderEntriesFrom : Quiet (orderEntriesFrom facts revisionPrefix ending seen entries) ↔
    QuietEntries facts revisionPrefix ending seen entries := by
  induction entries generalizing seen with
  | nil =>
    rw [orderEntriesFrom, quiet_read_bind, QuietEntries]
    exact exists_congr fun _ => and_iff_left (quiet_ok _)
  | cons entry entries ih =>
    rw [orderEntriesFrom, quiet_bind, quiet_orderEntry, QuietEntries]
    refine and_congr_right fun _ => forall_congr' fun c => ?_
    rw [orderEntry_eq_ok, quiet_bind, ih]
    constructor
    · exact fun h hentry hlistable hnew => (h ⟨hentry, hlistable, hnew⟩).1
    · exact fun h hc => ⟨h hc.1 hc.2.1 hc.2.2, fun _ _ => quiet_ok _⟩

end Order

/-! ## What the body defines -/

section Defined

/-- What is read of a binding can be read. -/
def QuietBinding (facts : Cls → ScriptClass) (name : Except Raised Attribute) :
    PyObject Cls → Prop
  | .untold _ => False
  | .other _ => True
  | .cls c => (facts c).isScript = .ok false ∨ (facts c).isScript = .ok true ∧
    ∃ module own, (facts c).module = .ok module ∧ name = .ok own ∧
      (module = own → (facts c).hashed = .ok ())

/-- The classes that are defined here, one for each binding. -/
def definedClasses (facts : Cls → ScriptClass) (name : Except Raised Attribute)
    (bindings : List (PyStr × PyObject Cls)) : List Cls :=
  bindings.filterMap fun binding => (definedHere facts name binding.2).toOption.join

/-- One class more, if it is not published yet. -/
def addUnpublished (published : List Cls) : Option Cls → List Cls
  | none => published
  | some c => if c ∈ published then published else published ++ [c]

variable {facts} {name : Except Raised Attribute} {bindings : List (PyStr × PyObject Cls)}

omit [DecidableEq Cls] in
theorem definedHere_eq_some {object : PyObject Cls} {c : Cls} :
    (definedHere facts name object).toOption.join = some c ↔ object = .cls c ∧
      (facts c).isScript = .ok true ∧ ∃ module, (facts c).module = .ok module ∧
        name = .ok module := by
  have hjoin : (definedHere facts name object).toOption.join = some c ↔
      definedHere facts name object = .ok (some c) := by
    cases definedHere facts name object <;> simp [Except.toOption]
  rw [hjoin]
  cases object with
  | untold error => simp [definedHere]
  | other name => simp [definedHere, pure, Except.pure]
  | cls d =>
    rw [definedHere, read_bind_eq_ok]
    constructor
    · rintro ⟨isScript, hscript, h⟩
      cases isScript with
      | false => cases h
      | true =>
        rw [if_pos rfl, read_bind_eq_ok] at h
        obtain ⟨module, hmodule, h⟩ := h
        obtain ⟨own, hown, h⟩ := read_bind_eq_ok.mp h
        split_ifs at h with hsame
        · cases h
          exact ⟨rfl, hscript, module, hmodule, hsame ▸ hown⟩
        · cases h
    · rintro ⟨hobject, hscript, module, hmodule, hown⟩
      cases hobject
      refine ⟨true, hscript, ?_⟩
      rw [if_pos rfl, read_bind_eq_ok]
      refine ⟨module, hmodule, read_bind_eq_ok.mpr ⟨module, hown, ?_⟩⟩
      rw [if_pos rfl]
      rfl

omit [DecidableEq Cls] in
theorem mem_definedClasses {c : Cls} : c ∈ definedClasses facts name bindings ↔
    ((facts c).isScript = .ok true ∧ ∃ module, (facts c).module = .ok module ∧
      name = .ok module) ∧ ∃ bound, (bound, .cls c) ∈ bindings := by
  unfold definedClasses
  rw [List.mem_filterMap]
  constructor
  · rintro ⟨⟨bound, object⟩, hmem, hdefined⟩
    obtain ⟨rfl, hc⟩ := definedHere_eq_some.mp hdefined
    exact ⟨hc, bound, hmem⟩
  · rintro ⟨hc, bound, hmem⟩
    exact ⟨_, hmem, definedHere_eq_some.mpr ⟨rfl, hc⟩⟩

omit [DecidableEq Cls] in
theorem definedClasses_concat (binding : PyStr × PyObject Cls) :
    definedClasses facts name (bindings ++ [binding]) = definedClasses facts name bindings ++
      (definedHere facts name binding.2).toOption.join.toList := by
  unfold definedClasses
  rw [List.filterMap_append]
  cases h : (definedHere facts name binding.2).toOption.join <;> simp [h]

/-- One turn of the loop over the namespace. -/
theorem addDefined_of_quiet {binding : PyStr × PyObject Cls} (published : List Cls)
    (h : QuietBinding facts name binding.2) : addDefined facts name published binding =
      .ok (addUnpublished published (definedHere facts name binding.2).toOption.join) := by
  obtain ⟨bound, object⟩ := binding
  cases object with
  | untold error => exact absurd h id
  | other name => rfl
  | cls c =>
    rcases h with hscript | ⟨hscript, module, own, hmodule, hown, hhashed⟩
    · simp [addDefined, definedHere, hscript, read, Except.mapError, pure, Except.pure, bind,
        Except.bind, Except.toOption, addUnpublished]
    · by_cases hsame : module = own
      · simp [addDefined, definedHere, hscript, hmodule, hown, hhashed hsame, hsame, read,
          Except.mapError, pure, Except.pure, bind, Except.bind, Except.toOption, addUnpublished]
      · simp [addDefined, definedHere, hscript, hmodule, hown, hsame, read, Except.mapError, pure,
          Except.pure, bind, Except.bind, Except.toOption, addUnpublished]

theorem quiet_addDefined {binding : PyStr × PyObject Cls} {published : List Cls} :
    Quiet (addDefined facts name published binding) ↔ QuietBinding facts name binding.2 := by
  constructor
  · intro h
    obtain ⟨bound, object⟩ := binding
    cases object with
    | untold error => exact not_quiet_raised error h
    | other name => exact trivial
    | cls c =>
      obtain ⟨hhere, hnext⟩ := quiet_bind.mp h
      obtain ⟨isScript, hscript, hhere'⟩ := quiet_read_bind.mp hhere
      cases isScript with
      | false => exact .inl hscript
      | true =>
        rw [if_pos rfl, quiet_read_bind] at hhere'
        obtain ⟨module, hmodule, hhere'⟩ := hhere'
        obtain ⟨own, hown, -⟩ := quiet_read_bind.mp hhere'
        refine .inr ⟨hscript, module, own, hmodule, hown, ?_⟩
        rintro rfl
        have hdefined : definedHere facts name (.cls c) = .ok (some c) := by
          simp [definedHere, hscript, hmodule, hown, read, Except.mapError, pure, Except.pure, bind,
            Except.bind]
        obtain ⟨⟨⟩, hhashed, -⟩ := quiet_read_bind.mp (hnext _ hdefined)
        exact hhashed
  · intro h
    rw [addDefined_of_quiet published h]
    exact quiet_ok _

/-- The loop over the namespace raises nothing where each binding can be read. -/
theorem quiet_foldlM_addDefined {order : List Cls} :
    Quiet (bindings.foldlM (addDefined facts name) order) ↔
      ∀ binding ∈ bindings, QuietBinding facts name binding.2 := by
  induction bindings generalizing order with
  | nil => exact iff_of_true (quiet_ok _) fun _ h => absurd h List.not_mem_nil
  | cons binding bindings ih =>
    rw [List.foldlM_cons, quiet_bind, quiet_addDefined, List.forall_mem_cons]
    refine and_congr_right fun hbinding => ?_
    rw [addDefined_of_quiet order hbinding]
    constructor
    · exact fun h => ih.mp (h _ rfl)
    · exact fun h _ _ => ih.mpr h

/-- **The loop over the namespace** adds, after what is listed, each other class at its first
binding. -/
theorem foldl_addUnpublished (order : List Cls) :
    bindings.foldl (fun published binding =>
        addUnpublished published (definedHere facts name binding.2).toOption.join) order =
      order ++ (keepFirst id (definedClasses facts name bindings)).filter (· ∉ order) := by
  induction bindings using List.reverseRecOn with
  | nil => simp [definedClasses]
  | append_singleton bindings binding ih =>
    rw [List.foldl_append, List.foldl_cons, List.foldl_nil, ih, definedClasses_concat]
    cases hdefined : (definedHere facts name binding.2).toOption.join with
    | none => simp [addUnpublished]
    | some c =>
      rw [Option.toList_some, keepFirst_concat, addUnpublished]
      simp only [id_eq, List.map_id]
      by_cases hlisted : c ∈ order
      · rw [if_pos (List.mem_append_left _ hlisted)]
        split_ifs
        · rfl
        · rw [List.filter_append]
          simp [hlisted]
      · by_cases hkept : c ∈ keepFirst id (definedClasses facts name bindings)
        · rw [if_pos hkept, if_pos]
          exact List.mem_append_right _ (List.mem_filter.mpr ⟨hkept, decide_eq_true hlisted⟩)
        · rw [if_neg hkept, if_neg, List.filter_append, List.append_assoc]
          · simp [hlisted]
          · rw [List.mem_append, not_or]
            exact ⟨hlisted, fun hmem => hkept (List.mem_of_mem_filter hmem)⟩

/-- What the loop comes to. -/
theorem foldlM_addDefined {order : List Cls}
    (h : ∀ binding ∈ bindings, QuietBinding facts name binding.2) :
    bindings.foldlM (addDefined facts name) order =
      .ok (order ++ (keepFirst id (definedClasses facts name bindings)).filter (· ∉ order)) := by
  rw [← foldl_addUnpublished]
  induction bindings generalizing order with
  | nil => rfl
  | cons binding bindings ih =>
    obtain ⟨hbinding, hlater⟩ := List.forall_mem_cons.mp h
    rw [List.foldlM_cons, addDefined_of_quiet order hbinding]
    exact ih hlater

/-- The first name of a class is before every name of another. -/
def BoundBefore (bindings : List (PyStr × PyObject Cls)) (c d : Cls) : Prop :=
  ∃ bound, (bound, .cls c) ∈ bindings ∧ ∀ other, (other, .cls d) ∈ bindings → bound < other

/-- Over a sorted namespace, the classes come in the order of their first names. -/
theorem pairwise_boundBefore (hsorted : bindings.Pairwise fun a b => a.1 < b.1) :
    (keepFirst id (definedClasses facts name bindings)).Pairwise (BoundBefore bindings) := by
  induction bindings using List.reverseRecOn with
  | nil => simp [definedClasses]
  | append_singleton bindings binding ih =>
    obtain ⟨hbefore, -, hlast⟩ := List.pairwise_append.mp hsorted
    have hlast : ∀ earlier ∈ bindings, earlier.1 < binding.1 := fun earlier hearlier =>
      hlast earlier hearlier binding (List.mem_singleton_self _)
    -- an earlier pair stays one: the new name is after all of them
    have hkeep : ∀ c d, BoundBefore bindings c d → BoundBefore (bindings ++ [binding]) c d := by
      rintro c d ⟨bound, hbound, hall⟩
      refine ⟨bound, List.mem_append_left _ hbound, fun other hother => ?_⟩
      rcases List.mem_append.mp hother with hother | hother
      · exact hall other hother
      · rw [← List.mem_singleton.mp hother] at hlast
        exact hlast _ hbound
    have hold := (ih hbefore).imp (@hkeep)
    rw [definedClasses_concat]
    cases hdefined : (definedHere facts name binding.2).toOption.join with
    | none => simpa using hold
    | some d =>
      rw [Option.toList_some, keepFirst_concat]
      split_ifs with hkept
      · exact hold
      · refine List.pairwise_append.mpr ⟨hold, List.pairwise_singleton _ _, fun c hc e he => ?_⟩
        obtain rfl := List.mem_singleton.mp he
        have hmem : ∀ c, c ∈ keepFirst id (definedClasses facts name bindings) ↔
            c ∈ definedClasses facts name bindings := fun c => by
          simpa using mem_map_keepFirst id (definedClasses facts name bindings) c
        rw [id_eq, List.map_id, hmem] at hkept
        obtain ⟨-, bound, hbound⟩ := mem_definedClasses.mp ((hmem c).mp hc)
        refine ⟨bound, List.mem_append_left _ hbound, fun other hother => ?_⟩
        rcases List.mem_append.mp hother with hother | hother
        · exact absurd (mem_definedClasses.mpr
            ⟨(definedHere_eq_some.mp hdefined).2, other, hother⟩) hkept
        · rw [← List.mem_singleton.mp hother] at hlast
          exact hlast _ hbound

end Defined

/-! ## What is published -/

section Published

/-- A class that can be published. -/
def ScriptClass.Publishable (cls : ScriptClass) : Prop :=
  cls.reportStyle = .ok false ∧ (∃ module, cls.module = .ok (.text module)) ∧
    cls.stamped = .ok () ∧ Reads cls.name

/-- Each class up to the first that is refused can be read. -/
def QuietPublished (facts : Cls → ScriptClass) : List Cls → Prop
  | [] => True
  | c :: published =>
    ((facts c).reportStyle = .ok true ∧ Reads (facts c).name ∨ (facts c).Publishable) ∧
      ((facts c).Publishable → QuietPublished facts published)

/-- The identity that a class publishes under. -/
def ScriptClass.Publishes (revisionPrefix : PyStr) (cls : ScriptClass)
    (identity : PyStr × PyStr) : Prop :=
  (∃ module, cls.module = .ok (.text module) ∧
    identity.1 = module.drop (revisionPrefix.length + 1)) ∧ cls.name = .ok identity.2

variable {facts} {projectKey : PyStr} {results : List (DiscoveredScript Cls)}
  {published : List Cls}

omit [DecidableEq Cls] in
theorem publish_eq_ok {c : Cls} {script : DiscoveredScript Cls}
    (h : publish facts projectKey revisionPrefix c = .ok script) :
    (facts c).Publishable ∧ script.cls = c ∧
      (facts c).Publishes revisionPrefix script.identity := by
  unfold publish at h
  obtain ⟨report, hreport, h⟩ := read_bind_eq_ok.mp h
  cases report with
  | true =>
    rw [if_pos rfl, read_bind_eq_ok] at h
    obtain ⟨name, -, h⟩ := h
    cases h
  | false =>
    rw [if_neg Bool.noConfusion, read_bind_eq_ok] at h
    obtain ⟨module, hmodule, h⟩ := h
    obtain ⟨logicalModule, hlogical, h⟩ := read_bind_eq_ok.mp h
    obtain ⟨module, rfl, rfl⟩ := Attribute.drop_eq_ok.mp hlogical
    obtain ⟨⟨⟩, hstamped, h⟩ := read_bind_eq_ok.mp h
    obtain ⟨name, hname, h⟩ := read_bind_eq_ok.mp h
    cases h
    exact ⟨⟨hreport, ⟨module, hmodule⟩, hstamped, name, hname⟩, rfl, ⟨module, hmodule, rfl⟩, hname⟩

omit [DecidableEq Cls] in
theorem publish_of_publishable {c : Cls} (h : (facts c).Publishable) :
    ∃ script, publish facts projectKey revisionPrefix c = .ok script := by
  obtain ⟨hreport, ⟨module, hmodule⟩, hstamped, name, hname⟩ := h
  refine ⟨_, read_bind_eq_ok.mpr ⟨false, hreport, read_bind_eq_ok.mpr ⟨_, hmodule,
    read_bind_eq_ok.mpr ⟨_, rfl, read_bind_eq_ok.mpr ⟨(), hstamped,
      read_bind_eq_ok.mpr ⟨name, hname, rfl⟩⟩⟩⟩⟩⟩

omit [DecidableEq Cls] in
theorem quiet_publish {c : Cls} : Quiet (publish facts projectKey revisionPrefix c) ↔
    ((facts c).reportStyle = .ok true ∧ Reads (facts c).name ∨ (facts c).Publishable) := by
  constructor
  · intro h
    obtain ⟨report, hreport, h⟩ := quiet_read_bind.mp h
    cases report with
    | true =>
      rw [if_pos rfl, quiet_read_bind] at h
      obtain ⟨name, hname, -⟩ := h
      exact .inl ⟨hreport, name, hname⟩
    | false =>
      rw [if_neg Bool.noConfusion, quiet_read_bind] at h
      obtain ⟨module, hmodule, h⟩ := h
      obtain ⟨logicalModule, hlogical, h⟩ := quiet_read_bind.mp h
      obtain ⟨module, rfl, rfl⟩ := Attribute.drop_eq_ok.mp hlogical
      obtain ⟨⟨⟩, hstamped, h⟩ := quiet_read_bind.mp h
      obtain ⟨name, hname, -⟩ := quiet_read_bind.mp h
      exact .inr ⟨hreport, ⟨module, hmodule⟩, hstamped, name, hname⟩
  · rintro (⟨hreport, name, hname⟩ | h)
    · refine quiet_read_bind.mpr ⟨true, hreport, ?_⟩
      rw [if_pos rfl, quiet_read_bind]
      exact ⟨name, hname, quiet_refused _⟩
    · obtain ⟨script, hscript⟩ : ∃ script, publish facts projectKey revisionPrefix c = .ok script :=
        publish_of_publishable h
      rw [hscript]
      exact quiet_ok script

omit [DecidableEq Cls] in
theorem quiet_mapM_publish : Quiet (published.mapM (publish facts projectKey revisionPrefix)) ↔
    QuietPublished facts published := by
  induction published with
  | nil =>
    rw [List.mapM_nil]
    exact iff_of_true (quiet_ok _) trivial
  | cons c published ih =>
    rw [List.mapM_cons, quiet_bind, quiet_publish, QuietPublished]
    refine and_congr_right fun _ => ?_
    constructor
    · intro h hc
      obtain ⟨script, hscript⟩ : ∃ script, publish facts projectKey revisionPrefix c = .ok script :=
        publish_of_publishable hc
      exact ih.mp (quiet_bind.mp (h script hscript)).1
    · exact fun h script hscript => quiet_bind.mpr
        ⟨ih.mpr (h (publish_eq_ok hscript).1), fun _ _ => quiet_ok _⟩

omit [DecidableEq Cls] in
theorem mapM_publish_eq_ok
    (h : published.mapM (publish facts projectKey revisionPrefix) = .ok results) :
    results.map DiscoveredScript.cls = published ∧ ∀ script ∈ results,
      (facts script.cls).Publishable ∧
        (facts script.cls).Publishes revisionPrefix script.identity := by
  induction published generalizing results with
  | nil =>
    rw [List.mapM_nil] at h
    cases h
    exact ⟨rfl, fun script hscript => absurd hscript List.not_mem_nil⟩
  | cons c published ih =>
    rw [List.mapM_cons] at h
    obtain ⟨script, hscript, h⟩ := Except.bind_eq_ok_iff.mp h
    obtain ⟨rest, hrest, h⟩ := Except.bind_eq_ok_iff.mp h
    cases h
    obtain ⟨hpublishable, rfl, hidentity⟩ := publish_eq_ok hscript
    obtain ⟨hcls, hall⟩ := ih hrest
    exact ⟨by rw [List.map_cons, hcls], List.forall_mem_cons.mpr ⟨⟨hpublishable, hidentity⟩, hall⟩⟩

omit [DecidableEq Cls] in
theorem mapM_publish_of_publishable (h : ∀ c ∈ published, (facts c).Publishable) :
    ∃ results, published.mapM (publish facts projectKey revisionPrefix) = .ok results := by
  induction published with
  | nil => exact ⟨[], rfl⟩
  | cons c published ih =>
    obtain ⟨hc, hlater⟩ := List.forall_mem_cons.mp h
    obtain ⟨script, hscript⟩ : ∃ script, publish facts projectKey revisionPrefix c = .ok script :=
      publish_of_publishable hc
    obtain ⟨rest, hrest⟩ := ih hlater
    refine ⟨script :: rest, ?_⟩
    rw [List.mapM_cons, hscript, hrest]
    rfl

omit [DecidableEq Cls] in
theorem requireDistinctFrom_eq_ok {seen : List (PyStr × PyStr)} :
    requireDistinctFrom seen results = .ok () ↔
      (results.map DiscoveredScript.identity).Nodup ∧
        ∀ script ∈ results, script.identity ∉ seen := by
  induction results generalizing seen with
  | nil =>
    exact iff_of_true rfl ⟨List.nodup_nil, fun script hscript =>
      absurd hscript List.not_mem_nil⟩
  | cons result results ih =>
    rw [requireDistinctFrom]
    split_ifs with hseen
    · refine iff_of_false (fun h => by cases h) fun h => ?_
      exact h.2 result List.mem_cons_self hseen
    · rw [ih, List.map_cons, List.nodup_cons, List.forall_mem_cons]
      constructor
      · rintro ⟨hnodup, hnew⟩
        refine ⟨⟨fun hmem => ?_, hnodup⟩, hseen, fun script hscript hold => ?_⟩
        · obtain ⟨script, hscript, heq⟩ := List.mem_map.mp hmem
          exact hnew script hscript (heq ▸ List.mem_cons_self)
        · exact hnew script hscript (List.mem_cons_of_mem _ hold)
      · rintro ⟨⟨hfirst, hnodup⟩, -, hnew⟩
        refine ⟨hnodup, fun script hscript hmem => ?_⟩
        rcases List.mem_cons.mp hmem with heq | hold
        · exact hfirst (heq ▸ List.mem_map_of_mem hscript)
        · exact hnew script hscript hold

omit [DecidableEq Cls] in
theorem quiet_requireDistinctFrom {seen : List (PyStr × PyStr)} :
    Quiet (requireDistinctFrom seen results) := by
  induction results generalizing seen with
  | nil => exact quiet_ok ()
  | cons result results ih =>
    rw [requireDistinctFrom]
    split_ifs
    · exact quiet_refused _
    · exact ih

omit [DecidableEq Cls] in
theorem RevisionModule.mem_sortedBindings {module : RevisionModule Cls}
    {binding : PyStr × PyObject Cls} :
    binding ∈ module.sortedBindings ↔ binding ∈ module.bindings :=
  List.mem_insertionSort _

omit [DecidableEq Cls] in
theorem RevisionModule.sortedBindings_pairwise (module : RevisionModule Cls) :
    module.sortedBindings.Pairwise fun a b => a.1 < b.1 := by
  have hle : module.sortedBindings.Pairwise fun a b => a.1 ≤ b.1 :=
    List.pairwise_insertionSort _ _
  have hnames : (module.sortedBindings.map Prod.fst).Nodup :=
    ((List.perm_insertionSort _ _).map _).nodup_iff.mpr module.nodup
  rw [List.Nodup, List.pairwise_map] at hnames
  exact hle.and hnames |>.imp fun h => lt_of_le_of_ne h.1 h.2

end Published

end Discover

end NetBoxScripts.Discovery
