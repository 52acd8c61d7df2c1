import VulkanBindings.Proofs.Graph.Configured
import VulkanBindings.Proofs.Graph.References

/-! What is emitted for a configuration: each node once, and with a type or a command everything
that it refers to. -/

set_option autoImplicit false

namespace VulkanBindings

variable {r : Registry} {c : Config} {g : Graph}

namespace Element

/-- Types and commands, which a configuration adds none of. -/
def IsDeclaration (e : Element) : Prop := e.kind = .type ∨ e.kind = .command

def references : Element → List String
  | .type t => t.references
  | .command c => c.references
  | _ => []

end Element

namespace Graph

section Accepted

variable (accepted : (ofConfig r c).run.value = .ok g)

include accepted

theorem coherent_of_ofConfig : g.Coherent ∧ g.EdgesInRange := by
  obtain ⟨built, accepted', rfl⟩ := exists_built_of_ofConfig accepted
  exact ⟨(wellFormed_applyAll accepted' c.applications).1.toCoherent,
    edgesInRange_applyAll accepted' c.applications⟩

theorem nodup_emissionOrder (names : List String) : (g.emissionOrder names).value.Nodup := by
  obtain ⟨coherent, edges⟩ := coherent_of_ofConfig accepted
  rw [value_emissionOrder]
  exact (visits_depthFirst edges coherent.lt_size_of_lookup).nodup_heads List.nodup_nil

/-- What is emitted is closed under dependencies, also where these lead back. -/
theorem mem_emissionOrder_of_dependsOn {names : List String} {child parent : NodeId}
    (emitted : child ∈ (g.emissionOrder names).value) (edge : g.DependsOn child parent) :
    parent ∈ (g.emissionOrder names).value := by
  obtain ⟨coherent, edges⟩ := coherent_of_ofConfig accepted
  rw [mem_emissionOrder coherent edges] at emitted ⊢
  obtain ⟨start, mem, reach⟩ := emitted
  exact ⟨start, mem, reach.tail edge⟩

theorem declaration_of_ofConfig {id : NodeId} {e : Element} (found : g.element? id = some e)
    (declares : e.IsDeclaration) : e ∈ r.definitions ∧ g.lookup e.name = some id := by
  obtain ⟨built, accepted', rfl⟩ := exists_built_of_ofConfig accepted
  have steps := Additions.applyAll built c.applications
  have applied := (wellFormed_applyAll accepted' c.applications).2
  have old : id < built.size := by
    by_contra new
    have isValue := (applied.added id (Nat.not_lt.1 new) (lt_size_of_element? found)).isValue
    rcases declares with kind | kind
    · cases isValue.unique ⟨e, found, kind⟩
    · cases isValue.unique ⟨e, found, kind⟩
  rw [steps.grows.elements id old] at found
  rw [steps.grows.lookup]
  rcases (defines_of_build accepted').sound id e found with isBlock | isVirtual | defined
  · rcases declares with kind | kind <;> cases isBlock.symm.trans kind
  · rcases declares with kind | kind <;> cases isVirtual.symm.trans kind
  · exact defined

theorem eq_of_name_eq {id other : NodeId} {e e' : Element} (found : g.element? id = some e)
    (found' : g.element? other = some e') (declares : e.IsDeclaration)
    (declares' : e'.IsDeclaration) (same : e.name = e'.name) : id = other := by
  have known := (declaration_of_ofConfig accepted found declares).2
  have known' := (declaration_of_ofConfig accepted found' declares').2
  rw [same, known'] at known
  exact (Option.some.inj known).symm

/-- What an emitted type or command refers to is emitted too, unless the type is terminal. -/
theorem mem_emissionOrder_of_reference {names : List String} {child parent : NodeId} {e : Element}
    {name : String} (emitted : child ∈ (g.emissionOrder names).value)
    (found : g.element? child = some e) (declares : e.IsDeclaration)
    (inner : e.isTerminal = false) (refers : name ∈ e.references) (whole : Text.trim name = name)
    (nonempty : name ≠ "") (known : g.lookup name = some parent) :
    parent ∈ (g.emissionOrder names).value := by
  by_cases own : parent = child
  · exact own ▸ emitted
  refine mem_emissionOrder_of_dependsOn accepted emitted ⟨by simp [found, inner], ?_⟩
  obtain ⟨defined, known'⟩ := declaration_of_ofConfig accepted found declares
  obtain ⟨built, accepted', rfl⟩ := exists_built_of_ofConfig accepted
  have grows := (Additions.applyAll built c.applications).grows
  rw [grows.lookup] at known known'
  have records := (records_of_build accepted').2.1
  have listed : r.Refers built.enabled (.named e.name) name := by
    cases e with
    | type t => exact .type (Registry.type_mem_definitions.1 defined) (TypeDecl.mem_references.1 refers)
    | command c =>
      exact .command (Registry.command_mem_definitions.1 defined) (Command.mem_references.1 refers)
    | _ => cases refers
  refine grows.mem_parents ((records.edges child parent ?_).2 ⟨own, name, ?_, ?_, ?_⟩)
  · exact (records.names name parent known).2.2.1
  · exact mem_resolve.2 ⟨.named e.name, mem_references.2 listed, known'⟩
  · rwa [whole]
  · rwa [whole]

end Accepted

end Graph

end VulkanBindings
