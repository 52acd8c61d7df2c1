import VulkanBindings.Graph.Build

/-! Features and extensions add enum values to the blocks of types: those that their require
blocks define, if the dependency of the block holds. -/

set_option autoImplicit false

namespace VulkanBindings

-- The value that an extension gives to an enum value: each extension has a range of a thousand,
-- counted from a base that all share.
def extensionValue (number offset : Nat) (negative : Bool) : Int :=
  let value : Int := 1000000000 + ((number : Int) - 1) * 1000 + offset
  if negative then -value else value

namespace Graph

-- The block that a required value is added to, or what to report if there is none. A value
-- that extends nothing is a constant if it has a value, and otherwise of no concern.
def targetBlock (g : Graph) (e : RequiredEnum) : Except (Option String) NodeId :=
  match e.extends? with
  | some type =>
    match (g.lookup type).bind fun id => (g.blocksOf id).head? with
    | some block => .ok block
    | none => .error s!"`{e.name}` extends `{type}`, which has no enums block"
  | none =>
    if e.element.value.isSome then
      match (g.blocksOf constants).head? with
      | some block => .ok block
      | none => .error s!"there is no constants block for `{e.name}`"
    else .error none

/-- The value as it is added to a block, none if it cannot be computed. -/
def addedValue? (g : Graph) (block : NodeId) (e : RequiredEnum) (number : Option Nat) :
    Option EnumValue :=
  let isBitmask := ((g.element? block).bind Element.block?).any (·.kind = .bitmask)
  if e.extends?.isSome && !isBitmask && e.element.aliasOf.isNone && e.element.value.isNone then
    match e.extNumber.or number, e.offset with
    | some number, some offset =>
      some { e.element with value := toString (extensionValue number offset (e.dir = some "-")) }
    | _, _ => none
  else some e.element

def addValue (g : Graph) (block : NodeId) (v : EnumValue) : Logged Graph :=
  let nameOf (id : NodeId) := (g.element? id).map (·.name)
  if (g.valuesOf block).any fun id => nameOf id = some v.name then do
    let owner := (nameOf block).getD ""
    log .trace s!"`{v.name}` was already added to `{owner}`"
    return g
  else
    return (g.push (.value v)).addParent block g.size

def applyEnum (number : Option Nat) (g : Graph) (e : RequiredEnum) : Logged Graph :=
  match g.targetBlock e with
  | .error none => return g
  | .error (some problem) => do
    log .warn problem
    return g
  | .ok block =>
    match g.addedValue? block e number with
    | some v => g.addValue block v
    | none => do
      log .warn s!"the value of `{e.name}` cannot be computed"
      return g

/-- Adds the enum values of the require blocks whose dependency holds. -/
def applyRequire (g : Graph) (number : Option Nat) (blocks : List RequireBlock) : Logged Graph :=
  ((blocks.filter fun b => g.isSatisfied b.depends).flatMap (·.enums)).foldlM (applyEnum number) g

def applyFeature (g : Graph) (name : String) : Logged Graph :=
  match (g.definition? name).bind Element.feature? with
  | some f => g.applyRequire none f.require
  | none => do
    log .warn s!"unknown feature `{name}`"
    return g

def applyExtension (g : Graph) (name : String) : Logged Graph :=
  match (g.definition? name).bind Element.extension? with
  | some e => g.applyRequire (some e.number) e.require
  | none => do
    log .warn s!"unknown extension `{name}`"
    return g

end Graph

end VulkanBindings
