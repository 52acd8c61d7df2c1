import VulkanBindings.Config.Basic
import VulkanBindings.Graph.Basic
import VulkanBindings.Item.Basic
import VulkanBindings.Item.Version
import VulkanBindings.Log
import VulkanBindings.Spelling.Constant
import VulkanBindings.Spelling.Glossary

/-! From the emitted nodes of a graph to items: the constants first, then an item for each type
and command that is declared, in the order of emission. Types and commands are spelled before
any item is made, so that items agree on them wherever they refer to one another. -/

set_option autoImplicit false

namespace VulkanBindings

abbrev Naming := StateT Glossary Logged

def spell {α : Type} (f : StateM Glossary α) : Naming α := fun g => return f.run g

def Glossary.declare (element : Element) : StateM Glossary Unit := do
  match element with
  | .type t => let _ ← typeDecl t
  | .command c => let _ ← named c.name
  | _ => return

def Glossary.ofOrder (stripped : List String) (g : Graph) (order : List NodeId) : Glossary :=
  ((order.filterMap g.element?).forM declare |>.run (ofScalars stripped)).2

namespace Graph

def enumValues (g : Graph) (id : NodeId) : List EnumValue :=
  (g.blocksOf id).flatMap fun block =>
    (g.valuesOf block).filterMap fun value => (g.element? value).bind Element.value?

/-- Whether a block of a node says that its values have 64 bits. -/
def isWide (g : Graph) (id : NodeId) : Bool :=
  (g.blocksOf id).any fun block =>
    ((g.element? block).bind Element.block?).any (·.bitWidth = some 64)

end Graph

namespace Item

def constant? (v : EnumValue) : Naming (Option (Spelling × Spelling)) := do
  match v.value, v.aliasOf with
  | some value, _ =>
    return some (← spell (Glossary.named v.name), .literal (Constant.goText value))
  | none, some target => do
    let name ← spell (Glossary.named v.name)
    return some (name, ← spell (Glossary.named target))
  | none, none => return none

def constantsOf (g : Graph) : Naming Item := do
  return .constants ((← (g.enumValues Graph.constants).mapM constant?).filterMap fun entry => entry)

/-- Defines that have no use in Go or that the version item covers. -/
def skippedDefines : List String := [
  "VK_MAKE_VERSION",
  "VK_VERSION_MAJOR",
  "VK_VERSION_MINOR",
  "VK_VERSION_PATCH",
  "VK_API_VERSION",
  "VK_DEFINE_HANDLE",
  "VK_USE_64_BIT_PTR_DEFINES",
  "VK_NULL_HANDLE",
  "VK_DEFINE_NON_DISPATCHABLE_HANDLE",
  "VK_API_VERSION_VARIANT",
  "VK_API_VERSION_MAJOR",
  "VK_API_VERSION_MINOR",
  "VK_API_VERSION_PATCH",
  "VK_MAKE_API_VERSION"]

def versionOf (config : Config) (value : String) : Naming VersionItem := do
  return {
    name := ← spell (Glossary.define "VK_API_VERSION")
    headerVersion := ← spell (Glossary.define "VK_HEADER_VERSION")
    value
    apiVersions := config.features.filterMap Version.ofFeature? }

def ofDefine (config : Config) (t : TypeDecl) : Naming (Option Item) := do
  if skippedDefines.contains t.name || Version.isApiVersion t.name then
    log .trace s!"skipping define `{t.name}`"
    return none
  else
    let text := Text.trim t.raw
    let item (found : Option String) (make : VersionItem → Item) : Naming (Option Item) :=
      match found with
      | some value => return some (make (← versionOf config value))
      | none => do
        log .warn s!"failed to parse define `{t.name}`: `{t.raw}`"
        return none
    if t.name = "VK_HEADER_VERSION" then item (Version.trailingNumber? text) .headerVersion
    else if t.name = "VK_HEADER_VERSION_COMPLETE" then
      item (Version.completeVersion? text) .version
    else do
      log .warn s!"define `{t.name}` is not handled"
      return none

def ofBasetype (t : TypeDecl) : Naming (Option Item) := do
  match t.typeTag? with
  | none => do
    log .info s!"basetype `{t.name}` has no type"
    return none
  | some tag =>
    let tag := if tag = "void" && t.raw.toList.contains '*' then "void*" else tag
    match Glossary.scalar? tag with
    | some scalar => return some (.base (← spell (Glossary.named t.name)) scalar)
    | none => do
      log .info s!"basetype `{t.name}` is not a scalar: `{tag}`"
      return none

/-- The value of an enum value as far as it can be computed. Other names have none. -/
def valueOf? (v : EnumValue) : Option Int :=
  match v.aliasOf, v.value, v.bitPos with
  | some _, _, _ => none
  | none, some text, _ => Constant.value? text
  | none, none, some position => Constant.bitValue? position
  | none, none, none => none

def underlying (isWide : Bool) (least greatest : Int) : Scalar :=
  if isWide then .uint64
  else if least < 0 then
    if greatest ≤ (⟨true, 32⟩ : Text.Word).greatest then .int32 else .int64
  else if greatest > (⟨false, 32⟩ : Text.Word).greatest then .uint64
  else .uint32

/-- The type of an enum with these values; nought counts as one of them. -/
def underlyingOf (isWide : Bool) (values : List EnumValue) : Scalar :=
  let numbers := values.filterMap valueOf?
  underlying isWide (numbers.foldl min 0) (numbers.foldl max 0)

def entryOf (owner : String) (v : EnumValue) : Naming (Option EnumEntry) := do
  let glossary ← get
  let value? : Option (Spelling × Bool) := match v.aliasOf, v.value, v.bitPos with
    | some target, _, _ => some ((glossary.find? target).getD (.literal target), true)
    | none, some text, _ => some (.literal text, false)
    | none, none, some position => some (.bit position, false)
    | none, none, none => none
  match value? with
  | some (value, isAlias) => return some ⟨← spell (Glossary.named v.name), value, isAlias⟩
  | none => do
    log .warn s!"`{v.name}` of `{owner}` has no value"
    return none

def ofEnum (g : Graph) (id : NodeId) (t : TypeDecl) : Naming EnumItem := do
  let values := g.enumValues id
  let entries ← values.mapM (entryOf t.name)
  return {
    name := ← spell (Glossary.named t.name)
    type := .scalar (underlyingOf (g.isWide id) values)
    entries := entries.filterMap fun entry => entry }

def onlyValue? (m : Member) : Option Spelling :=
  match m.values with
  | some values =>
    if m.name = "sType" && !values.toList.contains ',' then some (.literal values) else none
  | none => none

def lengthOf? (members : List Member) (type : Spelling) (m : Member) : Option Nat :=
  match m.len with
  | some len =>
    if len ≠ "1" && !len.toList.contains ',' && type.go ≠ "unsafe.Pointer" then
      members.findIdx? (·.name = len)
    else none
  | none => none

def fieldOf (glossary : Glossary) (members : List Member) (m : Member) : FieldItem :=
  let type := glossary.memberType m.typeName m.len m.raw
  let value := onlyValue? m
  let cgo := type.cgo.toList
  { name := glossary.exported (.reserved (.literal m.name))
    type
    value
    isCopied := value.isNone && (cgo.contains '[' || cgo.contains ']')
    length := lengthOf? members type m }

def ofStruct (t : TypeDecl) : Naming StructItem := do
  let glossary ← get
  let fields := t.members.map (fieldOf glossary t.members)
  return ⟨← spell (Glossary.struct t.name), fields, t.returnedOnly⟩

/-- Another name for a type. If that type is not emitted, neither is the name. -/
def ofAlias (t : TypeDecl) (target : String) : Naming (Option Item) := do
  match (← get).find? target with
  | some spelling => do
    let name ← spell (if t.category = .struct then Glossary.struct t.name else Glossary.named t.name)
    return some (.synonym name spelling)
  | none => do
    log .debug s!"`{t.name}` is an alias of `{target}`, which is not emitted"
    return none

def ofType (config : Config) (g : Graph) (id : NodeId) (t : TypeDecl) : Naming (Option Item) := do
  match t.aliasOf with
  | some target => ofAlias t target
  | none =>
    match t.category with
    | .define => ofDefine config t
    | .basetype => ofBasetype t
    | .handle => do
      let name ← spell (Glossary.named t.name)
      match t.parents.head? with
      | some parent => return some (.handle name (some (← spell (Glossary.named parent))))
      | none => return some (.handle name none)
    | .enum => return some (.enum (← ofEnum g id t))
    | .bitmask => do
      let name ← spell (Glossary.named t.name)
      let glossary ← get
      return some (.bitmask name ((t.typeTag?.bind glossary.find?).getD (.scalar .uint32)))
    | .funcpointer => return some (.function (← spell (Glossary.named t.name)) (.scalar .voidPointer))
    | .struct => return some (.struct (← ofStruct t))
    | .union => return some (.union (← spell (Glossary.named t.name)))
    | .header | .group | .other => return none

def parameterOf (glossary : Glossary) (p : Parameter) : ParameterItem :=
  { name := .reserved (.literal p.name)
    type := glossary.memberType p.typeName p.len p.raw
    typeName := p.typeName }

/-- What a command returns: a type that is spelled already, or one with stars around it. -/
def resultOf (glossary : Glossary) (p : Prototype) : Spelling :=
  (glossary.find? p.typeName).getD (glossary.memberType p.typeName none p.raw)

def ofCommand (c : Command) : Naming (Option Item) := do
  if c.aliasOf.isSome then
    log .trace s!"skipping command alias `{c.name}`"
    return none
  else
    let glossary ← get
    let params := c.params.map (parameterOf glossary)
    return some (.command ⟨← spell (Glossary.named c.name), resultOf glossary c.proto, params⟩)

def ofNode (config : Config) (g : Graph) (id : NodeId) : Naming (Option Item) := do
  match g.element? id with
  | some (.type t) => ofType config g id t
  | some (.command c) => ofCommand c
  | _ => return none

def ofOrder (config : Config) (g : Graph) (order : List NodeId) : Naming (List Item) := do
  let constants ← constantsOf g
  let items ← order.mapM (ofNode config g)
  return constants :: items.filterMap fun item => item

def build (config : Config) (g : Graph) (order : List NodeId) : Logged (List Item) := do
  let (items, _) ← (ofOrder config g order).run (.ofOrder config.exportPrefixes g order)
  log .debug s!"built {items.length} items of {order.length} nodes"
  return items

end Item

end VulkanBindings
