import Std.Data.TreeMap.Basic
import VulkanBindings.Registry.Basic

/-! The registry as a graph: a node for everything that has a name, and from each node edges to
its parents, the nodes that it refers to. Nodes are numbered in the order they are made. -/

set_option autoImplicit false

namespace VulkanBindings

inductive NodeKind where
  | platform
  | type
  | block
  | value
  | command
  | feature
  | extension
  | virtual
  deriving DecidableEq, Repr

namespace NodeKind

def rank : NodeKind → Nat
  | .platform => 0
  | .type => 1
  | .block => 2
  | .value => 3
  | .command => 4
  | .feature => 5
  | .extension => 6
  | .virtual => 7

def name : NodeKind → String
  | .platform => "platform"
  | .type => "type"
  | .block => "enums"
  | .value => "enum"
  | .command => "command"
  | .feature => "feature"
  | .extension => "extension"
  | .virtual => "virtual"

end NodeKind

/-- What an enum block says about itself. Its values are the parents of its node. -/
structure BlockInfo where
  name : String
  kind : BlockKind
  bitWidth : Option Nat
  comment : Option String
  deriving DecidableEq, Repr

def EnumBlock.info (b : EnumBlock) : BlockInfo :=
  ⟨b.name, b.kind, b.bitWidth, b.comment⟩

inductive Element where
  | platform (platform : Platform)
  | type (type : TypeDecl)
  | block (info : BlockInfo)
  | value (value : EnumValue)
  | command (command : Command)
  | feature (feature : Feature)
  | extension (extension : Extension)
  | virtual (name : String)
  deriving DecidableEq, Repr

namespace Element

def kind : Element → NodeKind
  | .platform _ => .platform
  | .type _ => .type
  | .block _ => .block
  | .value _ => .value
  | .command _ => .command
  | .feature _ => .feature
  | .extension _ => .extension
  | .virtual _ => .virtual

def name : Element → String
  | .platform p => p.name
  | .type t => t.name
  | .block b => b.name
  | .value v => v.name
  | .command c => c.name
  | .feature f => f.name
  | .extension e => e.name
  | .virtual name => name

-- Whether two elements of one name define it alike. Commands, features and extensions never
-- do.
def sameDefinition : Element → Element → Bool
  | .platform a, .platform b => a = b
  | .type a, .type b => a.sameDefinition b
  | .value a, .value b => a.sameDefinition b
  | _, _ => false

def type? : Element → Option TypeDecl
  | .type t => some t
  | _ => none

def block? : Element → Option BlockInfo
  | .block b => some b
  | _ => none

def value? : Element → Option EnumValue
  | .value v => some v
  | _ => none

def command? : Element → Option Command
  | .command c => some c
  | _ => none

def feature? : Element → Option Feature
  | .feature f => some f
  | _ => none

def extension? : Element → Option Extension
  | .extension e => some e
  | _ => none

/-- What this depends on is part of it, so its parents are not visited. -/
def isTerminal (e : Element) : Bool := e.type?.any (·.category.isTerminal)

def order (e : Element) : Nat := e.kind.rank * 10 + (e.type?.elim 0 (·.category.rank))

end Element

abbrev NodeId := Nat

structure GraphNode where
  element : Element
  parents : List NodeId := []
  missing : List String := []
  deriving DecidableEq, Repr

structure Graph where
  nodes : Array GraphNode
  dictionary : Std.TreeMap String NodeId
  enabled : List String

namespace Graph

/-- The node that owns every enum block without a type of the same name. -/
def constants : NodeId := 0

def empty : Graph := ⟨#[⟨.virtual "API Constants", [], []⟩], {}, []⟩

def size (g : Graph) : Nat := g.nodes.size

def node? (g : Graph) (id : NodeId) : Option GraphNode := g.nodes[id]?

def lookup (g : Graph) (name : String) : Option NodeId := g.dictionary[name]?

def definition? (g : Graph) (name : String) : Option Element := do
  return (← g.node? (← g.lookup name)).element

def element? (g : Graph) (id : NodeId) : Option Element := (g.node? id).map (·.element)

def parents (g : Graph) (id : NodeId) : List NodeId := ((g.node? id).map (·.parents)).getD []

theorem lt_size_of_node? {g : Graph} {id : NodeId} {node : GraphNode}
    (found : g.node? id = some node) : id < g.size :=
  (Array.getElem?_eq_some_iff.1 found).1

theorem exists_of_mem_parents {g : Graph} {child parent : NodeId}
    (edge : parent ∈ g.parents child) : ∃ node, g.node? child = some node ∧ parent ∈ node.parents := by
  unfold parents at edge
  cases found : g.node? child with
  | none => simp [found] at edge
  | some node => exact ⟨node, rfl, by simpa [found] using edge⟩

def isEnabled (g : Graph) (name : String) : Bool := g.enabled.contains name

def parentsOfKind (g : Graph) (kind : NodeKind) (id : NodeId) : List NodeId :=
  (g.parents id).filter fun parent => (g.element? parent).any (·.kind = kind)

def blocksOf (g : Graph) (id : NodeId) : List NodeId := g.parentsOfKind .block id

def valuesOf (g : Graph) (id : NodeId) : List NodeId := g.parentsOfKind .value id

def push (g : Graph) (element : Element) : Graph :=
  { g with nodes := g.nodes.push ⟨element, [], []⟩ }

@[simp] theorem size_push (g : Graph) (element : Element) : (g.push element).size = g.size + 1 := by
  simp [push, size]

theorem element?_push (g : Graph) (element : Element) (id : NodeId) :
    (g.push element).element? id = if id = g.size then some element else g.element? id := by
  by_cases last : id = g.nodes.size <;> simp [element?, node?, push, size, Array.getElem?_push, last]

def modify (g : Graph) (id : NodeId) (f : GraphNode → GraphNode) : Graph :=
  { g with nodes := g.nodes.modify id f }

@[simp] theorem size_modify (g : Graph) (id : NodeId) (f : GraphNode → GraphNode) :
    (g.modify id f).size = g.size := by
  simp [modify, size]

/-- An edge is added once, and none from a node to itself. -/
def addParent (g : Graph) (child parent : NodeId) : Graph :=
  if child = parent then g
  else g.modify child fun node =>
    if node.parents.contains parent then node
    else { node with parents := node.parents ++ [parent] }

@[simp] theorem size_addParent (g : Graph) (child parent : NodeId) :
    (g.addParent child parent).size = g.size := by
  unfold addParent
  split
  · rfl
  · exact g.size_modify _ _

def addMissing (g : Graph) (child : NodeId) (name : String) : Graph :=
  g.modify child fun node =>
    if node.missing.contains name then node else { node with missing := node.missing ++ [name] }

@[simp] theorem size_addMissing (g : Graph) (child : NodeId) (name : String) :
    (g.addMissing child name).size = g.size :=
  g.size_modify _ _

def link (g : Graph) (child : NodeId) (name : String) : Graph :=
  let name := Text.trim name
  if name.isEmpty then g
  else match g.lookup name with
    | some parent => g.addParent child parent
    | none => g.addMissing child name

@[simp] theorem size_link (g : Graph) (child : NodeId) (name : String) :
    (g.link child name).size = g.size := by
  simp only [link]
  split
  · rfl
  · split <;> simp

def linkAll (g : Graph) (child : NodeId) (names : List String) : Graph :=
  names.foldl (·.link child ·) g

@[simp] theorem size_linkAll (g : Graph) (child : NodeId) (names : List String) :
    (g.linkAll child names).size = g.size := by
  induction names generalizing g with
  | nil => rfl
  | cons name rest ih => exact (ih _).trans (g.size_link child name)

end Graph

end VulkanBindings
