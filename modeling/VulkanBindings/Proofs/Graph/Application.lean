import VulkanBindings.Proofs.Graph.Changes

/-! Applying features and extensions one after the other. All that it does to a graph is to add
values to enum blocks that hold none of their name. -/

set_option autoImplicit false

namespace VulkanBindings.Graph

variable {g : Graph}

/-- A feature or an extension that is to be applied, by its name. -/
inductive Application where
  | feature (name : String)
  | extension (name : String)
  deriving DecidableEq, Repr

def Application.name : Application → String
  | .feature name => name
  | .extension name => name

def apply (g : Graph) : Application → Logged Graph
  | .feature name => g.applyFeature name
  | .extension name => g.applyExtension name

def applyAll (g : Graph) (applications : List Application) : Logged Graph :=
  applications.foldlM apply g

/-- What an application does in one step: a value that an enum block holds none of the name of
becomes a node and the last parent of the block. -/
inductive Addition (g : Graph) : Graph → Prop where
  | value {block : NodeId} {v : EnumValue} (isBlock : g.HasKind block .block)
      (new : ∀ id ∈ g.valuesOf block, g.name? id ≠ some v.name) :
      Addition g (g.attach block (.value v))

abbrev Additions : Graph → Graph → Prop := Relation.ReflTransGen Addition

theorem hasKind_of_targetBlock {e : RequiredEnum} {block : NodeId}
    (target : g.targetBlock e = .ok block) : g.HasKind block .block := by
  have ofHead {id : NodeId} (first : (g.blocksOf id).head? = some block) :
      g.HasKind block .block :=
    (mem_parentsOfKind.1 (List.mem_of_head? first)).2
  unfold targetBlock at target
  split at target
  · split at target
    · next found =>
      cases target
      obtain ⟨type, -, first⟩ := Option.bind_eq_some_iff.1 found
      exact ofHead first
    · cases target
  · split at target
    · split at target
      · next first =>
        cases target
        exact ofHead first
      · cases target
    · cases target

namespace Additions

theorem addValue {block : NodeId} (isBlock : g.HasKind block .block) (v : EnumValue) :
    Additions g (g.addValue block v).value := by
  unfold Graph.addValue
  dsimp only
  split
  · exact .refl
  · next held =>
    refine .single (.value isBlock fun id mem same => held ?_)
    exact List.any_eq_true.2 ⟨id, mem, by simpa [name?] using same⟩

theorem applyEnum (number : Option Nat) (g : Graph) (e : RequiredEnum) :
    Additions g (applyEnum number g e).value := by
  unfold Graph.applyEnum
  split
  · exact .refl
  · exact .refl
  · next target =>
    split
    · exact addValue (hasKind_of_targetBlock target) _
    · exact .refl

theorem applyRequire (g : Graph) (number : Option Nat) (blocks : List RequireBlock) :
    Additions g (g.applyRequire number blocks).value := by
  unfold Graph.applyRequire
  rw [Logged.value_foldlM]
  exact steps_foldl (applyEnum number) _ g

theorem apply (g : Graph) (application : Application) : Additions g (g.apply application).value := by
  cases application with
  | feature name =>
    simp only [Graph.apply, applyFeature]
    split
    · exact applyRequire g _ _
    · exact .refl
  | extension name =>
    simp only [Graph.apply, applyExtension]
    split
    · exact applyRequire g _ _
    · exact .refl

theorem applyAll (g : Graph) (applications : List Application) :
    Additions g (g.applyAll applications).value := by
  unfold Graph.applyAll
  rw [Logged.value_foldlM]
  exact steps_foldl apply applications g

end Additions

end VulkanBindings.Graph
