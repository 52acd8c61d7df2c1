import VulkanBindings.Depends
import VulkanBindings.Graph.Define

/-! The edges of a registry's graph: each element is linked to what it refers to. What a require
block names is linked only if the block's dependency holds. -/

set_option autoImplicit false

namespace VulkanBindings

def TypeDecl.references (t : TypeDecl) : List String :=
  t.requires.toList ++ t.aliasOf.toList ++ t.parents ++
    (t.members.flatMap fun m => m.typeName :: m.enumRef.toList) ++
    t.objTypeEnum.toList ++ t.typeTags

def Command.references (c : Command) : List String :=
  c.aliasOf.toList ++ c.proto.typeName :: c.params.map (·.typeName)

def RequireBlock.references (b : RequireBlock) : List String :=
  b.commands ++ b.types ++ b.enums.flatMap fun e => e.extends?.toList ++ [e.name]

namespace Graph

/-- Whether a dependency holds; none always does. -/
def isSatisfied (g : Graph) (depends : Option String) : Bool :=
  depends.all fun text => Depends.satisfied text g.enabled

def linkType (g : Graph) (t : TypeDecl) : Graph :=
  match g.lookup t.name with
  | some id => g.linkAll id t.references
  | none => g

def linkValue (block : NodeId) (g : Graph) (v : EnumValue) : Graph :=
  let g := g.link block v.name
  match g.lookup v.name, v.aliasOf with
  | some id, some target => g.link id target
  | _, _ => g

/-- Adds a node for an enum block. It belongs to the type of its name, or to the constants. -/
def linkBlock (g : Graph) (b : EnumBlock) : Graph :=
  let id := g.size
  let g := g.push (.block b.info)
  let g := g.addParent ((g.lookup b.name).getD constants) id
  b.values.foldl (linkValue id) g

def linkCommand (g : Graph) (c : Command) : Graph :=
  match g.lookup c.name with
  | some id => g.linkAll id c.references
  | none => g

def linkRequire (g : Graph) (id : NodeId) (blocks : List RequireBlock) : Graph :=
  (blocks.filter fun b => g.isSatisfied b.depends).foldl (fun g b => g.linkAll id b.references) g

def linkFeature (g : Graph) (f : Feature) : Graph :=
  match g.lookup f.name with
  | some id => g.linkRequire id f.require
  | none => g

-- The names of a dependency that an extension is linked to: all names that have to hold
-- together, or the last enabled one of several that will do. None if that cannot be told.
def dependencyNames? (g : Graph) (depends : String) : Option (List String) :=
  let any := depends.toList.contains ','
  let all := depends.toList.contains '+'
  if (any && all) || depends.toList.contains '(' || depends.toList.contains ')' then none
  else if any then
    some (((Text.split ',' depends).map Text.trim).filter g.isEnabled).getLast?.toList
  else some (Text.split '+' depends)

def linkDepends (g : Graph) (id : NodeId) (depends : String) : Logged Graph :=
  match g.dependencyNames? depends with
  | some names => return g.linkAll id names
  | none => do
    let name := ((g.element? id).map (·.name)).getD ""
    log .info s!"`{name}`: dependency `{depends}` is too complex to link"
    return g

def linkExtension (g : Graph) (e : Extension) : Logged Graph :=
  match g.lookup e.name with
  | none => return g
  | some id =>
    let g := g.linkRequire id e.require
    let g := g.linkAll id e.platform.toList
    match e.depends with
    | some depends => g.linkDepends id depends
    | none => return g

def build (r : Registry) (enabled : List String) : ExceptT Redefined Logged Graph := do
  let g ← ofDefinitions r
  let g := { g with enabled }
  let g := r.types.foldl linkType g
  let g := r.enums.foldl linkBlock g
  let g := r.commands.foldl linkCommand g
  let g := r.features.foldl linkFeature g
  let g ← (r.extensions.foldlM linkExtension g : Logged Graph)
  log .debug s!"built graph with {g.size} nodes"
  return g

end Graph

end VulkanBindings
