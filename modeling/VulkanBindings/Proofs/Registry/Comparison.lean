import VulkanBindings.Proofs.Xml.Composed
import VulkanBindings.Registry.Reader

/-! The readers of a registry and its parts are composed of the basic readers, a step for each entry and
then what is required of all of them. However the basic readers compare on nodes that are alike, these
readers compare in the same way. -/

set_option autoImplicit false

namespace VulkanBindings

open Xml (Node Error Comparison Composed IsComposed FailsOnly required_failsOnly)

theorem passed_composed {σ : Type} (state : σ) : IsComposed (passed state) :=
  fun node node' => .next (.skip node node') fun _ => .ok _

namespace Platform

theorem step_composed (s : Partial) (name : String) : IsComposed (step s name) := by
  intro node node'
  have text := Composed.text node node'
  unfold step
  split
  · exact .next (.once "name" s.name text) fun _ => .ok _
  · exact .next (.once "protect" s.protect text) fun _ => .ok _
  · exact .next (.once "comment" s.comment text) fun _ => .ok _
  · exact passed_composed s node node'

theorem ofNode_composed : IsComposed ofNode := by
  intro node node'
  refine .next (IsComposed.fold step_composed {} node node') fun s => ?_
  exact (required_failsOnly ..).bind fun _ _ => (required_failsOnly ..).bind fun _ _ => .ok _

end Platform

namespace EnumValue

theorem field?_composed (s : Partial) (name : String) (node node' : Node) :
    Option.Rel (Composed node node') (field? s name node) (field? s name node') := by
  have text := Composed.text node node'
  unfold field?
  split
  · exact .some (.next (.once _ _ text) fun _ => .ok _)
  · exact .some (.next (.once _ _ text) fun _ => .ok _)
  · exact .some (.next (.once _ _ (.number node node')) fun _ => .ok _)
  all_goals first | exact .some (.next (.once _ _ text) fun _ => .ok _) | exact .none

theorem step_composed (s : Partial) (name : String) : IsComposed (step s name) := by
  intro node node'
  have fields := field?_composed s name node node'
  unfold step
  generalize field? s name node = field at fields ⊢
  generalize field? s name node' = field' at fields ⊢
  cases fields with
  | some composed => exact composed
  | none => exact passed_composed s node node'

theorem finish_failsOnly (s : Partial) : FailsOnly Error.IsOwn s.finish :=
  (required_failsOnly ..).bind fun _ _ => .ok _

theorem ofNode_composed : IsComposed ofNode :=
  fun node node' => .next (IsComposed.fold step_composed {} node node') finish_failsOnly

end EnumValue

namespace RequiredEnum

theorem step_composed (s : Partial) (name : String) : IsComposed (step s name) := by
  intro node node'
  have fields := EnumValue.field?_composed s.element name node node'
  unfold step
  generalize EnumValue.field? s.element name node = field at fields ⊢
  generalize EnumValue.field? s.element name node' = field' at fields ⊢
  cases fields with
  | some composed => exact .next composed fun _ => .ok _
  | none =>
    have text := Composed.text node node'
    have number := Composed.number node node'
    dsimp only
    split
    · exact .next (.once _ _ text) fun _ => .ok _
    · exact .next (.once _ _ number) fun _ => .ok _
    · exact .next (.once _ _ number) fun _ => .ok _
    · exact .next (.once _ _ text) fun _ => .ok _
    · exact passed_composed s node node'

theorem ofNode_composed : IsComposed ofNode := fun node node' =>
  .next (IsComposed.fold step_composed {} node node') fun _ =>
    (EnumValue.finish_failsOnly _).bind fun _ _ => .ok _

end RequiredEnum

namespace Member

theorem step_composed (s : Option String × Member) (name : String) : IsComposed (step s name) := by
  intro node node'
  have text := Composed.text node node'
  have body := Composed.bodyText node node'
  unfold step
  dsimp only
  split
  · exact .next body fun _ => .ok _
  · exact .next body fun _ => .ok _
  · exact .next (.comment node node') fun _ => .ok _
  · exact .next body fun _ => .ok _
  all_goals first | exact .next text fun _ => .ok _ | exact passed_composed s node node'

theorem ofNode_composed : IsComposed ofNode := fun node node' =>
  .next (IsComposed.fold step_composed (none, {}) node node') fun _ =>
    (required_failsOnly ..).bind fun _ _ => .ok _

end Member

namespace TypeDecl

theorem step_composed (s : Option String × TypeDecl) (name : String) : IsComposed (step s name) := by
  intro node node'
  have text := Composed.text node node'
  have comment := Composed.comment node node'
  unfold step
  dsimp only
  split
  · exact .next comment fun _ => .ok _
  · exact .choice _ node node'
  all_goals first
    | exact .next text fun _ => .ok _
    | exact .next comment fun _ => .ok _
    | exact .next (.bodyText node node') fun _ => .ok _
    | exact .next (Member.ofNode_composed node node') fun _ => .ok _
    | exact (passed_composed s node node').map _

theorem ofNode_composed : IsComposed ofNode :=
  IsComposed.choices step_composed (none, {}) fun _ => (required_failsOnly ..).bind fun _ _ => .ok _

end TypeDecl

namespace EnumBlock

theorem step_composed (s : Option String × EnumBlock) (name : String) : IsComposed (step s name) := by
  intro node node'
  unfold step
  dsimp only
  split
  · exact .next (.text node node') fun _ => .ok _
  · exact .choice _ node node'
  · exact .next (.comment node node') fun _ => .ok _
  · exact .next (.number node node') fun _ => .ok _
  · exact .next (EnumValue.ofNode_composed node node') fun _ => .ok _
  · exact (passed_composed s node node').map _

theorem ofNode_composed : IsComposed ofNode :=
  IsComposed.choices step_composed (none, {}) fun _ => (required_failsOnly ..).bind fun _ _ => .ok _

end EnumBlock

theorem nameOfNode_composed : IsComposed nameOfNode := by
  intro node node'
  refine .next (IsComposed.fold (fun found name child child' => ?_) none node node') fun _ =>
    required_failsOnly ..
  split
  · exact .once _ _ (.text child child')
  · exact passed_composed found child child'

namespace RequireBlock

theorem step_composed (s : Partial) (name : String) : IsComposed (step s name) := by
  intro node node'
  have text := Composed.text node node'
  unfold step
  split
  · exact .next text fun _ => .ok _
  · exact .next text fun _ => .ok _
  · exact .next text fun _ => .ok _
  · exact .next text fun _ => .ok _
  · exact .next (.comment node node') fun _ => .ok _
  · exact .next (nameOfNode_composed node node') fun _ => .ok _
  · exact .next (nameOfNode_composed node node') fun _ => .ok _
  · exact .next (RequiredEnum.ofNode_composed node node') fun _ => .ok _
  · exact passed_composed s node node'

theorem ofNode_composed : IsComposed ofNode :=
  fun node node' => .next (IsComposed.fold step_composed {} node node') fun _ => .ok _

end RequireBlock

namespace Feature

theorem step_composed (s : Option String × Feature) (name : String) : IsComposed (step s name) := by
  intro node node'
  have text := Composed.text node node'
  unfold step
  dsimp only
  split
  · exact .next text fun _ => .ok _
  · exact .next text fun _ => .ok _
  · exact .next text fun _ => .ok _
  · exact .next (.comment node node') fun _ => .ok _
  · exact .next (RequireBlock.ofNode_composed node node') fun _ => .ok _
  · exact passed_composed s node node'

theorem ofNode_composed : IsComposed ofNode := fun node node' =>
  .next (IsComposed.fold step_composed (none, {}) node node') fun _ =>
    (required_failsOnly ..).bind fun _ _ => .ok _

end Feature

namespace Extension

theorem step_composed (s : Partial) (name : String) : IsComposed (step s name) := by
  intro node node'
  have text := Composed.text node node'
  unfold step
  dsimp only
  split
  · exact .next text fun _ => .ok _
  · exact .next (.number node node') fun _ => .ok _
  all_goals first
    | exact .next text fun _ => .ok _
    | exact .next (.comment node node') fun _ => .ok _
    | exact .next (RequireBlock.ofNode_composed node node') fun _ => .ok _
    | exact passed_composed s node node'

theorem ofNode_composed : IsComposed ofNode := by
  intro node node'
  refine .next (IsComposed.fold step_composed {} node node') fun s => ?_
  exact (required_failsOnly ..).bind fun _ _ => (required_failsOnly ..).bind fun _ _ => .ok _

end Extension

namespace Prototype

theorem step_composed (s : Option String × Prototype) (name : String) : IsComposed (step s name) := by
  intro node node'
  unfold step
  dsimp only
  split
  · exact .next (.bodyText node node') fun _ => .ok _
  · exact .next (.bodyText node node') fun _ => .ok _
  · exact .next (.text node node') fun _ => .ok _
  · exact passed_composed s node node'

theorem ofNode_composed : IsComposed ofNode := fun node node' =>
  .next (IsComposed.fold step_composed (none, {}) node node') fun _ =>
    (required_failsOnly ..).bind fun _ _ => .ok _

end Prototype

namespace Parameter

theorem step_composed (s : Option String × Parameter) (name : String) : IsComposed (step s name) := by
  intro node node'
  have text := Composed.text node node'
  unfold step
  dsimp only
  split
  · exact .next (.bodyText node node') fun _ => .ok _
  · exact .next (.bodyText node node') fun _ => .ok _
  all_goals first | exact .next text fun _ => .ok _ | exact passed_composed s node node'

theorem ofNode_composed : IsComposed ofNode := fun node node' =>
  .next (IsComposed.fold step_composed (none, {}) node node') fun _ =>
    (required_failsOnly ..).bind fun _ _ => .ok _

end Parameter

namespace Command

theorem step_composed (s : Option Prototype × Command) (name : String) : IsComposed (step s name) := by
  intro node node'
  have text := Composed.text node node'
  unfold step
  dsimp only
  split
  all_goals first
    | exact .next text fun _ => .ok _
    | exact .next (.comment node node') fun _ => .ok _
    | exact .next (Prototype.ofNode_composed node node') fun _ => .ok _
    | exact .next (Parameter.ofNode_composed node node') fun _ => .ok _
    | exact passed_composed s node node'

theorem ofNode_composed : IsComposed ofNode := by
  intro node node'
  refine .next (IsComposed.fold step_composed (none, {}) node node') fun (proto, c) => ?_
  cases proto with
  | some proto => exact .ok _
  | none =>
    dsimp only
    split
    · exact .ok _
    · exact .of_kind trivial

end Command

namespace Registry

variable {c : Comparison} {node node' : Node}

theorem step_composed (r : Registry) (name : String) : IsComposed (step r name) := by
  intro node node'
  unfold step
  split
  · exact .next (.bodyText node node') fun _ => .ok _
  · exact .next (Platform.ofNode_composed.children "platform" node node') fun _ => .ok _
  · exact .next (TypeDecl.ofNode_composed.children "type" node node') fun _ => .ok _
  · exact .next (EnumBlock.ofNode_composed node node') fun _ => .ok _
  · exact .next (Command.ofNode_composed.children "command" node node') fun _ => .ok _
  · exact .next (Feature.ofNode_composed node node') fun _ => .ok _
  · exact .next (Extension.ofNode_composed.children "extension" node node') fun _ => .ok _
  · exact passed_composed r node node'

/-- A registry is read of a root, entry by entry. -/
theorem ofRoot_composed : IsComposed (Node.fold step {}) := IsComposed.fold step_composed {}

theorem ofRoot_agrees (nodes : c.alike node node') :
    c.agree node.IsWhole (node.fold step {}) (node'.fold step {}) :=
  (ofRoot_composed node node').agrees c nodes

end Registry

end VulkanBindings
