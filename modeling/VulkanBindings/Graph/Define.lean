import VulkanBindings.Graph.Basic
import VulkanBindings.Log

/-! The nodes of a registry: one for each name, made from the first element that defines it. A
name may be defined again only as it was before. -/

set_option autoImplicit false

namespace VulkanBindings

structure Redefined where
  name : String
  deriving DecidableEq, Repr

def Redefined.message (e : Redefined) : String :=
  s!"`{e.name}` is defined more than once with different definitions"

namespace Graph

def define (g : Graph) (element : Element) : ExceptT Redefined Logged Graph :=
  match g.lookup element.name with
  | none =>
    return { g.push element with dictionary := g.dictionary.insert element.name g.size }
  | some id =>
    if (g.element? id).any (·.sameDefinition element) then do
      log .trace s!"`{element.name}` is defined again with the same definition"
      return g
    else throw ⟨element.name⟩

/-- Defines the enum values that require blocks add. References to values define none. -/
def defineRequired (g : Graph) (blocks : List RequireBlock) : ExceptT Redefined Logged Graph :=
  ((blocks.flatMap (·.enums)).filter (!·.isReference)).foldlM (fun g e => g.define (.value e.element)) g

def ofDefinitions (r : Registry) : ExceptT Redefined Logged Graph := do
  let g ← r.platforms.foldlM (fun g p => g.define (.platform p)) empty
  let g ← r.types.foldlM (fun g t => g.define (.type t)) g
  let g ← (r.enums.flatMap (·.values)).foldlM (fun g v => g.define (.value v)) g
  let g ← r.commands.foldlM (fun g c => g.define (.command c)) g
  let g ← r.features.foldlM (fun g f => do (← g.define (.feature f)).defineRequired f.require) g
  let g ← r.extensions.foldlM (fun g e => do (← g.define (.extension e)).defineRequired e.require) g
  log .debug s!"defined {g.dictionary.size} names"
  return g

end Graph

end VulkanBindings
