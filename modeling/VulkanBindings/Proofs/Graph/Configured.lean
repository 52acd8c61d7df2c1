import VulkanBindings.Generate
import VulkanBindings.Proofs.Graph.Agreement
import VulkanBindings.Proofs.Graph.Dependencies
import VulkanBindings.Proofs.Graph.Rules

/-! A registry's graph with what a configuration names applied to it. The types that configured
features and extensions add enum values to are emitted, and hold these values. -/

set_option autoImplicit false

namespace VulkanBindings

open VulkanBindings.Graph (Application)

namespace Config

variable (c : Config)

def isSatisfied (b : RequireBlock) : Bool := b.depends.all fun text => Depends.satisfied text c.enabled

def applications : List Application := c.features.map .feature ++ c.extensions.map .extension

end Config

/-- What the configured features and extensions require of enum blocks. -/
def Registry.requiredBy (r : Registry) (c : Config) : List Requirement :=
  ((r.features.filter (c.features.contains ·.name)).flatMap fun f =>
      Requirement.ofBlocks none (f.require.filter c.isSatisfied)) ++
    (r.extensions.filter (c.extensions.contains ·.name)).flatMap fun e =>
      Requirement.ofBlocks (some e.number) (e.require.filter c.isSatisfied)

namespace Graph

variable {g built : Graph} {r : Registry} {c : Config}

theorem exists_built_of_ofConfig (accepted : (ofConfig r c).run.value = .ok g) :
    ∃ built, (build r c.enabled).run.value = .ok built ∧
      g = (built.applyAll c.applications).value := by
  unfold ofConfig at accepted
  rw [Logged.value_run_bind] at accepted
  cases accepted' : (build r c.enabled).run.value with
  | error e =>
    rw [accepted'] at accepted
    cases accepted
  | ok built =>
    rw [accepted'] at accepted
    refine ⟨built, rfl, ?_⟩
    cases accepted
    change (List.foldlM applyExtension (List.foldlM applyFeature built c.features).value
      c.extensions).value = _
    unfold applyAll Config.applications
    simp only [Logged.value_foldlM, List.foldl_append, List.foldl_map]
    rfl

section Requirements

variable (accepted : (build r c.enabled).run.value = .ok g)

include accepted

theorem isSatisfied_of_build (b : RequireBlock) : g.isSatisfied b.depends = c.isSatisfied b := by
  obtain ⟨named, -, -, enabled, rfl⟩ := exists_named_of_build accepted
  unfold isSatisfied Config.isSatisfied
  rw [(LinkSteps.linkRegistry named r).grows.enabled, enabled]

theorem mem_requiredBy {q : Requirement} :
    q ∈ r.requiredBy c ↔ ∃ application ∈ c.applications, q ∈ g.requirements application := by
  have h := (wellFormed_of_build accepted).toCoherent
  have defines := defines_of_build accepted
  have satisfied : (fun b : RequireBlock => g.isSatisfied b.depends) = c.isSatisfied :=
    funext (isSatisfied_of_build accepted)
  unfold Registry.requiredBy Config.applications
  simp only [List.mem_append, List.mem_flatMap, List.mem_filter, List.mem_map]
  constructor
  · rintro (⟨f, ⟨mem, named⟩, required⟩ | ⟨e, ⟨mem, named⟩, required⟩)
    · refine ⟨.feature f.name, .inl ⟨f.name, by simpa using named, rfl⟩, ?_⟩
      rw [defines.mem_requirements_feature h, satisfied]
      exact ⟨f, mem, rfl, required⟩
    · refine ⟨.extension e.name, .inr ⟨e.name, by simpa using named, rfl⟩, ?_⟩
      rw [defines.mem_requirements_extension h, satisfied]
      exact ⟨e, mem, rfl, required⟩
  · rintro ⟨_, ⟨name, mem, rfl⟩ | ⟨name, mem, rfl⟩, required⟩
    · rw [defines.mem_requirements_feature h, satisfied] at required
      obtain ⟨f, declared, rfl, required⟩ := required
      exact .inl ⟨f, ⟨declared, by simpa using mem⟩, required⟩
    · rw [defines.mem_requirements_extension h, satisfied] at required
      obtain ⟨e, declared, rfl, required⟩ := required
      exact .inr ⟨e, ⟨declared, by simpa using mem⟩, required⟩

end Requirements

section Edges

theorem grows_foldl {α : Type} {f : Graph → α → Graph} (each : ∀ g a, Grows g (f g a))
    (xs : List α) (g : Graph) : Grows g (xs.foldl f g) := by
  induction xs generalizing g with
  | nil => exact .refl g
  | cons a xs ih => exact (each g a).trans (ih (f g a))

/-- Where a fold that only adds to a graph comes to one of its items. -/
theorem exists_grows_of_mem {α : Type} {f : Graph → α → Graph} (each : ∀ g a, Grows g (f g a))
    {xs : List α} {x : α} (mem : x ∈ xs) (g : Graph) :
    ∃ before, Grows g before ∧ Grows (f before x) (xs.foldl f g) := by
  obtain ⟨earlier, later, rfl⟩ := List.append_of_mem mem
  refine ⟨earlier.foldl f g, grows_foldl each earlier g, ?_⟩
  rw [List.foldl_append]
  exact grows_foldl each later _

theorem grows_linkAll (g : Graph) (child : NodeId) (targets : List String) :
    Grows g (g.linkAll child targets) :=
  grows_foldl (fun g target => (LinkSteps.link g child target).grows) targets g

theorem mem_parents_linkAll {child parent : NodeId} {target : String} {targets : List String}
    (inside : child < g.size) (other : child ≠ parent) (nonempty : Text.trim target ≠ "")
    (known : g.lookup (Text.trim target) = some parent) (mem : target ∈ targets) :
    parent ∈ (g.linkAll child targets).parents child := by
  obtain ⟨before, grows, later⟩ := exists_grows_of_mem
    (fun g name => (LinkSteps.link g child name).grows) mem g
  refine later.mem_parents (mem_parents_link.2 (.inr ⟨rfl, ?_, other, nonempty, ?_⟩))
  · exact Nat.lt_of_lt_of_le inside grows.size_le
  · rw [grows.lookup, known]

theorem mem_parents_linkRequire {id parent : NodeId} {target : String} {blocks : List RequireBlock}
    {b : RequireBlock} (inside : id < g.size) (other : id ≠ parent)
    (nonempty : Text.trim target ≠ "") (known : g.lookup (Text.trim target) = some parent)
    (mem : b ∈ blocks) (satisfied : g.isSatisfied b.depends) (refers : target ∈ b.references) :
    parent ∈ (g.linkRequire id blocks).parents id := by
  rw [linkRequire_eq_linkAll]
  apply mem_parents_linkAll inside other nonempty known
  exact List.mem_flatMap.2 ⟨b, List.mem_filter.2 ⟨mem, satisfied⟩, refers⟩

-- What features and extensions require is linked last.
theorem exists_linkFeatures (g : Graph) (r : Registry) :
    ∃ start, Grows g start ∧ g.linkRegistry r =
      r.extensions.foldl (fun g e => (g.linkExtension e).value) (r.features.foldl linkFeature start) := by
  have types := steps_foldl NamedLinks.linkType r.types g
  have blocks := steps_foldl LinkSteps.linkBlock r.enums (r.types.foldl linkType g)
  have commands := steps_foldl NamedLinks.linkCommand r.commands
    (r.enums.foldl linkBlock (r.types.foldl linkType g))
  have steps := (NamedLinks.linkSteps types).trans (blocks.trans (NamedLinks.linkSteps commands))
  exact ⟨_, LinkSteps.grows steps, rfl⟩

theorem grows_linkFeature (g : Graph) (f : Feature) : Grows g (g.linkFeature f) :=
  (NamedLinks.linkSteps (NamedLinks.linkFeature g f)).grows

theorem grows_linkExtension (g : Graph) (e : Extension) : Grows g (g.linkExtension e).value :=
  (NamedLinks.linkSteps (NamedLinks.linkExtension g e)).grows

variable {id : NodeId}

theorem exists_linkRequire_feature {f : Feature} (mem : f ∈ r.features)
    (known : g.lookup f.name = some id) :
    ∃ before, Grows g before ∧ Grows (before.linkRequire id f.require) (g.linkRegistry r) := by
  obtain ⟨start, first, whole⟩ := exists_linkFeatures g r
  obtain ⟨before, next, later⟩ := exists_grows_of_mem grows_linkFeature mem start
  have ready := first.trans next
  have here : before.linkFeature f = before.linkRequire id f.require := by
    unfold linkFeature
    rw [ready.lookup, known]
  refine ⟨before, ready, ?_⟩
  rw [whole, ← here]
  exact later.trans (grows_foldl grows_linkExtension r.extensions _)

theorem exists_linkRequire_extension {e : Extension} (mem : e ∈ r.extensions)
    (known : g.lookup e.name = some id) :
    ∃ before, Grows g before ∧ Grows (before.linkRequire id e.require) (g.linkRegistry r) := by
  obtain ⟨start, first, whole⟩ := exists_linkFeatures g r
  obtain ⟨before, next, later⟩ := exists_grows_of_mem grows_linkExtension mem
    (r.features.foldl linkFeature start)
  have ready := first.trans ((grows_foldl grows_linkFeature r.features start).trans next)
  have here : Grows (before.linkRequire id e.require) (before.linkExtension e).value := by
    unfold linkExtension
    rw [ready.lookup, known]
    dsimp only
    split
    · unfold linkDepends
      split
      · exact (grows_linkAll _ id _).trans (grows_linkAll _ id _)
      · exact grows_linkAll _ id _
    · exact grows_linkAll _ id _
  refine ⟨before, ready, ?_⟩
  rw [whole]
  exact here.trans later

end Edges

theorem Grows.dependsOn {after : Graph} (h : Grows g after) {child parent : NodeId}
    (edge : g.DependsOn child parent) : after.DependsOn child parent := by
  obtain ⟨open_, mem⟩ := edge
  obtain ⟨node, found, -⟩ := exists_of_mem_parents mem
  refine ⟨?_, h.mem_parents mem⟩
  rw [h.elements child (lt_size_of_node? found), open_]

theorem Coherent.lt_size_of_lookup (h : g.Coherent) {names : List String} :
    ∀ start ∈ names.filterMap g.lookup, start < g.size := by
  intro start mem
  obtain ⟨name, -, known⟩ := List.mem_filterMap.1 mem
  exact (h.names name start known).1

theorem mem_emissionOrder (h : g.Coherent) (edges : g.EdgesInRange) {names : List String}
    {id : NodeId} :
    id ∈ (g.emissionOrder names).value ↔ g.Reachable (names.filterMap g.lookup) id := by
  rw [value_emissionOrder, List.mem_filterMap, ← isCollected_iff]
  exact (visits_depthFirst edges h.lt_size_of_lookup).isCollected_iff_reachable

section Extended

variable {type : String} {t : NodeId} {q : Requirement}

-- The edge is added where the requirements are linked, and stays.
theorem dependsOn_of_linkRequire {before : Graph} {id : NodeId} {e : Element}
    {number : Option Nat} {blocks : List RequireBlock} (inside : id < before.size)
    (later : Grows (before.linkRequire id blocks) g) (found : g.element? id = some e)
    (notType : e.type? = none)
    (required : q ∈ Requirement.ofBlocks number
      (blocks.filter fun b => g.isSatisfied b.depends))
    (extended : q.enum.extends? = some type) (trimmed : Text.trim type = type)
    (nonempty : type ≠ "") (known : g.lookup type = some t) (isType : g.HasKind t .type) :
    g.DependsOn id t := by
  have whole : Grows before g := by
    rw [linkRequire_eq_linkAll] at later
    exact (grows_linkAll before id _).trans later
  obtain ⟨-, b, kept, listed⟩ := Requirement.mem_ofBlocks.1 required
  obtain ⟨mem, satisfied⟩ := List.mem_filter.1 kept
  have other : id ≠ t := by
    rintro rfl
    obtain ⟨e', found', kind⟩ := isType
    cases found.symm.trans found'
    cases e <;> cases kind
    cases notType
  have refers : type ∈ b.references :=
    RequireBlock.mem_references.2 (.extended listed extended)
  rw [whole.isSatisfied] at satisfied
  rw [whole.lookup, ← trimmed] at known
  refine ⟨by simp [found, Element.isTerminal, notType], later.mem_parents ?_⟩
  exact mem_parents_linkRequire inside other (by rwa [trimmed]) known mem satisfied refers

variable (accepted : (build r c.enabled).run.value = .ok g)

include accepted

theorem dependsOn_extended {application : Application} (required : q ∈ g.requirements application)
    (extended : q.enum.extends? = some type) (trimmed : Text.trim type = type)
    (nonempty : type ≠ "") (known : g.lookup type = some t) (isType : g.HasKind t .type) :
    ∃ id, g.lookup application.name = some id ∧ g.DependsOn id t := by
  have coherent := (wellFormed_of_build accepted).toCoherent
  have defines := defines_of_build accepted
  obtain ⟨named, isNamed, -, -, rfl⟩ := exists_named_of_build accepted
  have grows := (LinkSteps.linkRegistry named r).grows
  cases application with
  | feature name =>
    obtain ⟨f, mem, rfl, needed⟩ := (defines.mem_requirements_feature coherent).1 required
    have found := (defines.definition?_eq_feature coherent).2 ⟨mem, rfl⟩
    rw [definition?_eq_bind] at found
    obtain ⟨id, start, found⟩ := Option.bind_eq_some_iff.1 found
    have start' := (grows.lookup f.name).symm.trans start
    obtain ⟨before, first, later⟩ := exists_linkRequire_feature mem start'
    have inside := Nat.lt_of_lt_of_le (isNamed.names f.name id start').1 first.size_le
    exact ⟨id, start, dependsOn_of_linkRequire inside later found rfl needed extended trimmed
      nonempty known isType⟩
  | extension name =>
    obtain ⟨e, mem, rfl, needed⟩ := (defines.mem_requirements_extension coherent).1 required
    have found := (defines.definition?_eq_extension coherent).2 ⟨mem, rfl⟩
    rw [definition?_eq_bind] at found
    obtain ⟨id, start, found⟩ := Option.bind_eq_some_iff.1 found
    have start' := (grows.lookup e.name).symm.trans start
    obtain ⟨before, first, later⟩ := exists_linkRequire_extension mem start'
    have inside := Nat.lt_of_lt_of_le (isNamed.names e.name id start').1 first.size_le
    exact ⟨id, start, dependsOn_of_linkRequire inside later found rfl needed extended trimmed
      nonempty known isType⟩

theorem extended_mem_emissionOrder (required : q ∈ r.requiredBy c) (extended : q.enum.extends? = some type)
    (trimmed : Text.trim type = type) (nonempty : type ≠ "") (known : g.lookup type = some t)
    (isType : g.HasKind t .type) :
    t ∈ ((g.applyAll c.applications).value.emissionOrder c.enabled).value := by
  have wellFormed := (wellFormed_of_build accepted).additions
    (Additions.applyAll g c.applications)
  have grows := (Additions.applyAll g c.applications).grows
  obtain ⟨application, mem, required⟩ := (mem_requiredBy accepted).1 required
  obtain ⟨id, start, edge⟩ :=
    dependsOn_extended accepted required extended trimmed nonempty known isType
  have enabled : application.name ∈ c.enabled := by
    unfold Config.applications at mem
    rcases List.mem_append.1 mem with mem | mem
    · obtain ⟨name, listed, rfl⟩ := List.mem_map.1 mem
      exact List.mem_append_left _ listed
    · obtain ⟨name, listed, rfl⟩ := List.mem_map.1 mem
      exact List.mem_append_right _ listed
  rw [mem_emissionOrder wellFormed.1.toCoherent (edgesInRange_applyAll accepted c.applications)]
  refine ⟨id, ?_, .single (grows.dependsOn edge)⟩
  exact List.mem_filterMap.2 ⟨application.name, enabled, by rw [grows.lookup, start]⟩

end Extended

end Graph

end VulkanBindings
