import VulkanBindings.Graph.Basic
import VulkanBindings.Log
import VulkanBindings.Sort

/-! The order in which nodes are emitted: every node after what it depends on. The search keeps
a stack of paths. The path on top is expanded by the parents that are neither collected nor on
it; when there are none left, its last node is collected. -/

set_option autoImplicit false

namespace VulkanBindings

/-- A path from a start, its last node first. -/
abbrev Path := List NodeId

namespace Graph

def orderOf (g : Graph) (id : NodeId) : Nat := (g.element? id).elim 0 (·.order)

def sort (g : Graph) (ids : List NodeId) : List NodeId := sortBy g.orderOf ids

def followed (g : Graph) (id : NodeId) : List NodeId :=
  if (g.element? id).any (·.isTerminal) then [] else g.parents id

structure Search where
  stack : List Path
  /-- The paths of the collected nodes, the latest first. -/
  collected : List Path
  tracked : Array Bool

namespace Search

def start (g : Graph) (starts : List NodeId) : Search :=
  ⟨(g.sort starts).map ([·]), [], .replicate g.size false⟩

def isTracked (s : Search) (id : NodeId) : Bool := s.tracked[id]?.getD true

def step (g : Graph) (s : Search) : Search :=
  match s.stack with
  | [] => s
  | [] :: stack => { s with stack }
  | (current :: before) :: stack =>
    if s.isTracked current then { s with stack }
    else
      let path := current :: before
      let fresh := (g.followed current).filter fun id => !s.isTracked id && !path.contains id
      if fresh.isEmpty then
        ⟨stack, path :: s.collected, s.tracked.setIfInBounds current true⟩
      else { s with stack := (g.sort fresh).map (· :: path) ++ path :: stack }

def run (g : Graph) : Nat → Search → Search
  | 0, s => s
  | n + 1, s => if s.stack.isEmpty then s else run g n (s.step g)

end Search

-- Enough steps for every search: a node is expanded at most once and collected once, so a path
-- is put on the stack for each start, and for each node once more and once per parent.
def searchBound (g : Graph) (starts : List NodeId) : Nat :=
  g.nodes.toList.foldr (fun node n => node.parents.length + 1 + n) starts.length

-- The paths to all nodes that are reachable from the starts, each after those of the node's
-- parents.
def depthFirst (g : Graph) (starts : List NodeId) : List Path :=
  ((Search.start g starts).run g (g.searchBound starts)).collected.reverse

def knownStarts (g : Graph) (names : List String) : Logged (List NodeId) := do
  let ids ← names.mapM fun name =>
    match g.lookup name with
    | some id => return some id
    | none => do
      log .warn s!"`{name}` is not defined in the registry"
      return none
  return ids.filterMap id

/-- All nodes that the named features and extensions need, what they depend on first. -/
def emissionOrder (g : Graph) (names : List String) : Logged (List NodeId) := do
  let starts ← g.knownStarts names
  let order := (g.depthFirst starts).filterMap List.head?
  log .debug s!"{order.length} of {g.size} nodes are reachable"
  return order

end Graph

end VulkanBindings
