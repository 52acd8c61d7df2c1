import VulkanBindings.Config.Basic
import VulkanBindings.Graph.Basic
import VulkanBindings.Item.Basic
import VulkanBindings.Log

/-! Handles that get a facade in Go: those that a command is invoked on, and the handles that
they are created from. -/

set_option autoImplicit false

namespace VulkanBindings.Facade

/-- For the name of a handle, the handle that it is created from, if there is one. -/
def parent? (g : Graph) (name : String) : Option (Option String) :=
  match (g.definition? name).bind Element.type? with
  | some t => if t.category = .handle then some t.parents.head? else none
  | none => none

-- Adds a handle and those that it is created from, up to one that was found before. The first
-- argument bounds their number.
def follow (g : Graph) : Nat → Option String → List String → List String
  | 0, _, found => found
  | _, none, found => found
  | n + 1, some name, found =>
    match parent? g name with
    | none => found
    | some parent =>
      if found.contains name then found else follow g n parent (found ++ [name])

def handles (g : Graph) (config : Config) (items : List Item) : List String :=
  let invoked := (Item.commands items).filter fun c => !config.isGlobalProc c.name.c
  invoked.foldl (fun found c => follow g (g.size + 1) (c.params.head?.map (·.typeName)) found) []

def determine (g : Graph) (config : Config) (items : List Item) : Logged (List String) := do
  let found := handles g config items
  log .debug s!"{found.length} handles need a facade"
  return found

end VulkanBindings.Facade
