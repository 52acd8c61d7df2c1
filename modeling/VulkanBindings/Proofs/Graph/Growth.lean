import VulkanBindings.Proofs.Graph.WellFormed

/-! A graph only grows. Linking and applying leave the names and the elements that are there, and
put new parents after the old ones. What an application adds are values: it changes no parents but
those of enum blocks, and no enum block is new. -/

set_option autoImplicit false

namespace VulkanBindings.Graph

variable {g after final : Graph}

structure Grows (g after : Graph) : Prop where
  size_le : g.size ≤ after.size
  dictionary : after.dictionary = g.dictionary
  enabled : after.enabled = g.enabled
  elements : ∀ id < g.size, after.element? id = g.element? id
  parents : ∀ id, g.parents id <+: after.parents id

namespace Grows

theorem refl (g : Graph) : Grows g g :=
  ⟨Nat.le_refl _, rfl, rfl, fun _ _ => rfl, fun _ => List.prefix_rfl⟩

theorem trans (first : Grows g after) (second : Grows after final) : Grows g final where
  size_le := Nat.le_trans first.size_le second.size_le
  dictionary := second.dictionary.trans first.dictionary
  enabled := second.enabled.trans first.enabled
  elements id inside := by
    rw [second.elements id (Nat.lt_of_lt_of_le inside first.size_le), first.elements id inside]
  parents id := (first.parents id).trans (second.parents id)

theorem lookup (h : Grows g after) (name : String) : after.lookup name = g.lookup name := by
  unfold Graph.lookup
  rw [h.dictionary]

theorem isSatisfied (h : Grows g after) (depends : Option String) :
    after.isSatisfied depends = g.isSatisfied depends := by
  unfold Graph.isSatisfied
  rw [h.enabled]

theorem element?_of_some (h : Grows g after) {id : NodeId} {e : Element}
    (found : g.element? id = some e) : after.element? id = some e := by
  rw [h.elements id (lt_size_of_element? found), found]

theorem mem_parents (h : Grows g after) {child parent : NodeId} (edge : parent ∈ g.parents child) :
    parent ∈ after.parents child :=
  (h.parents child).subset edge

theorem push (g : Graph) (element : Element) : Grows g (g.push element) where
  size_le := by simp
  dictionary := rfl
  enabled := rfl
  elements id inside := by rw [element?_push, if_neg (Nat.ne_of_lt inside)]
  parents id := by rw [parents_push]

theorem addParent (g : Graph) (child parent : NodeId) : Grows g (g.addParent child parent) where
  size_le := by simp
  dictionary := by unfold Graph.addParent; split <;> rfl
  enabled := by unfold Graph.addParent; split <;> rfl
  elements id _ := element?_addParent child parent id
  parents id := by
    rw [parents_addParent]
    split
    · exact List.prefix_append _ _
    · exact List.prefix_rfl

theorem addMissing (g : Graph) (child : NodeId) (name : String) :
    Grows g (g.addMissing child name) where
  size_le := by simp
  dictionary := rfl
  enabled := rfl
  elements id _ := element?_addMissing child name id
  parents id := by rw [parents_addMissing]

theorem attach (g : Graph) (owner : NodeId) (element : Element) :
    Grows g (g.attach owner element) :=
  (push g element).trans (addParent _ owner g.size)

theorem of_steps {Step : Graph → Graph → Prop} (each : ∀ g after, Step g after → Grows g after)
    (steps : Relation.ReflTransGen Step g after) : Grows g after := by
  induction steps with
  | refl => exact refl g
  | tail _ step ih => exact ih.trans (each _ _ step)

end Grows

theorem LinkStep.grows (step : LinkStep g after) : Grows g after := by
  cases step with
  | edge child known => exact .addParent g child _
  | missing child nonempty unknown => exact .addMissing g child _
  | block b => exact .attach g _ _

theorem LinkSteps.grows (steps : LinkSteps g after) : Grows g after :=
  .of_steps (fun _ _ step => step.grows) steps

theorem Addition.grows (step : Addition g after) : Grows g after := by
  cases step
  exact .attach g _ _

theorem Additions.grows (steps : Additions g after) : Grows g after :=
  .of_steps (fun _ _ step => step.grows) steps

/-- A graph that grows by values of enum blocks. -/
structure GainsValues (g after : Graph) : Prop extends Grows g after where
  missing : ∀ id, after.missing id = g.missing id
  otherParents : ∀ id, ¬g.HasKind id .block → after.parents id = g.parents id
  isBlock : ∀ id, after.HasKind id .block ↔ g.HasKind id .block
  blocksOf : ∀ id, after.blocksOf id = g.blocksOf id

namespace GainsValues

theorem refl (g : Graph) : GainsValues g g :=
  ⟨.refl g, fun _ => rfl, fun _ _ => rfl, fun _ => .rfl, fun _ => rfl⟩

theorem trans (first : GainsValues g after) (second : GainsValues after final) :
    GainsValues g final where
  toGrows := first.toGrows.trans second.toGrows
  missing id := (second.missing id).trans (first.missing id)
  otherParents id notBlock := by
    have stillNot : ¬after.HasKind id .block := fun has => notBlock ((first.isBlock id).1 has)
    rw [second.otherParents id stillNot, first.otherParents id notBlock]
  isBlock id := (second.isBlock id).trans (first.isBlock id)
  blocksOf id := (second.blocksOf id).trans (first.blocksOf id)

end GainsValues

theorem Coherent.gainsValues (h : g.Coherent) (step : Addition g after) : GainsValues g after := by
  have grows := step.grows
  obtain @⟨block, v, isBlock, -⟩ := step
  refine ⟨grows, fun id => ?_, fun id notBlock => ?_, fun id => ?_, fun id => ?_⟩
  · simp [Graph.attach]
  · rw [h.parents_attach isBlock.lt_size, if_neg]
    rintro rfl
    exact notBlock isBlock
  · simp [Element.kind]
  · unfold Graph.blocksOf
    rw [h.parentsOfKind_attach isBlock.lt_size]
    simp [Element.kind]

theorem WellFormed.gainsValues (h : g.WellFormed) (steps : Additions g after) :
    GainsValues g after := by
  induction steps with
  | refl => exact .refl g
  | tail earlier step ih => exact ih.trans ((h.additions earlier).1.toCoherent.gainsValues step)

end VulkanBindings.Graph
