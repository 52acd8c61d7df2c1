import Mathlib.Data.List.Basic
import VulkanBindings.Graph.Define

/-! The definitions of a registry as one list. The names of a graph are defined along it. -/

set_option autoImplicit false

namespace VulkanBindings

def RequireBlock.definitions (blocks : List RequireBlock) : List Element :=
  ((blocks.flatMap (·.enums)).filter (!·.isReference)).map fun e => .value e.element

/-- Everything in a registry that defines a name, in order. -/
def Registry.definitions (r : Registry) : List Element :=
  r.platforms.map .platform ++ r.types.map .type ++
    (r.enums.flatMap (·.values)).map .value ++ r.commands.map .command ++
    (r.features.flatMap fun f => .feature f :: RequireBlock.definitions f.require) ++
    (r.extensions.flatMap fun e => .extension e :: RequireBlock.definitions e.require)

namespace Graph

theorem defineRequired_eq (g : Graph) (blocks : List RequireBlock) :
    g.defineRequired blocks = (RequireBlock.definitions blocks).foldlM define g := by
  rw [RequireBlock.definitions, List.foldlM_map]
  rfl

/-- Features and extensions are defined, each before the values that its require blocks add. -/
theorem foldlM_defineRequired {α : Type} (element : α → Element) (require : α → List RequireBlock)
    (xs : List α) (g : Graph) :
    xs.foldlM (fun g x => do (← g.define (element x)).defineRequired (require x)) g =
      (xs.flatMap fun x => element x :: RequireBlock.definitions (require x)).foldlM define g := by
  simp only [defineRequired_eq]
  induction xs generalizing g with
  | nil => rfl
  | cons x xs ih =>
    simp only [List.foldlM_cons, List.flatMap_cons, List.cons_append, List.foldlM_append, bind_assoc, ih]

theorem ofDefinitions_eq (r : Registry) :
    ofDefinitions r = do
      let g ← r.definitions.foldlM define empty
      log .debug s!"defined {g.dictionary.size} names"
      return g := by
  unfold ofDefinitions Registry.definitions
  simp only [List.foldlM_append, List.foldlM_map, bind_assoc, foldlM_defineRequired]

theorem value_ofDefinitions (r : Registry) :
    (ofDefinitions r).run.value = (r.definitions.foldlM define empty).run.value := by
  rw [ofDefinitions_eq, Logged.value_run_bind]
  cases (r.definitions.foldlM define empty).run.value with
  | error e => rfl
  | ok g => rfl

end Graph

end VulkanBindings
