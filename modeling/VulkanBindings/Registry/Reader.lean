import VulkanBindings.Log
import VulkanBindings.Registry.Basic
import VulkanBindings.Xml.Fold

/-! Reading a registry from its document. Entries that no reader knows are passed over, at every
level. -/

set_option autoImplicit false

namespace VulkanBindings

open Xml (Node Content Error Comment Step once required)

def passed {σ : Type} (state : σ) (node : Node) : Except Error σ := do
  node.skip
  return state

namespace Platform

structure Partial where
  name : Option String := none
  protect : Option String := none
  comment : Option String := none

def step (s : Partial) (name : String) (node : Node) : Except Error Partial := do
  match name with
  | "name" => return { s with name := ← once "name" s.name node.text }
  | "protect" => return { s with protect := ← once "protect" s.protect node.text }
  | "comment" => return { s with comment := ← once "comment" s.comment node.text }
  | _ => passed s node

def ofNode (node : Node) : Except Error Platform := do
  let s ← node.fold step {}
  return ⟨← required "name" s.name, ← required "protect" s.protect, s.comment⟩

end Platform

namespace EnumValue

structure Partial where
  name : Option String := none
  value : EnumValue := {}

/-- Reads a field that every enum value may have, none if the name is that of no such field. -/
def field? (s : Partial) (name : String) (node : Node) : Option (Except Error Partial) :=
  let v := s.value
  match name with
  | "name" => some do return { s with name := ← once "name" s.name node.text }
  | "value" => some do
    return { s with value := { v with value := ← once "value" v.value node.text } }
  | "bitpos" => some do
    return { s with value := { v with bitPos := ← once "bitpos" v.bitPos node.number } }
  | "alias" => some do
    return { s with value := { v with aliasOf := ← once "alias" v.aliasOf node.text } }
  | "api" => some do
    return { s with value := { v with api := ← once "api" v.api node.text } }
  | "type" => some do
    return { s with value := { v with typeAttr := ← once "type" v.typeAttr node.text } }
  | "deprecated" => some do
    return { s with value := { v with deprecated := ← once "deprecated" v.deprecated node.text } }
  | "protect" => some do
    return { s with value := { v with protect := ← once "protect" v.protect node.text } }
  | "comment" => some do
    return { s with value := { v with comment := ← once "comment" v.comment node.text } }
  | _ => none

def Partial.finish (s : Partial) : Except Error EnumValue := do
  return { s.value with name := ← required "name" s.name }

def step (s : Partial) (name : String) (node : Node) : Except Error Partial :=
  (field? s name node).getD (passed s node)

def ofNode (node : Node) : Except Error EnumValue := do
  (← node.fold step {}).finish

end EnumValue

namespace RequiredEnum

structure Partial where
  element : EnumValue.Partial := {}
  rest : RequiredEnum := {}

def step (s : Partial) (name : String) (node : Node) : Except Error Partial :=
  match EnumValue.field? s.element name node with
  | some read => do return { s with element := ← read }
  | none => do
    let r := s.rest
    match name with
    | "extends" =>
      return { s with rest := { r with extends? := ← once "extends" r.extends? node.text } }
    | "extnumber" =>
      return { s with rest := { r with extNumber := ← once "extnumber" r.extNumber node.number } }
    | "offset" =>
      return { s with rest := { r with offset := ← once "offset" r.offset node.number } }
    | "dir" => return { s with rest := { r with dir := ← once "dir" r.dir node.text } }
    | _ => passed s node

def ofNode (node : Node) : Except Error RequiredEnum := do
  let s ← node.fold step {}
  return { s.rest with element := ← s.element.finish }

end RequiredEnum

namespace Member

def step (s : Option String × Member) (name : String) (node : Node) :
    Except Error (Option String × Member) := do
  let (found, m) := s
  match name with
  | "type" => return (found, { m with typeName := ← node.bodyText })
  | "name" => return (some (← node.bodyText), m)
  | "comment" => return (found, { m with comment := (← node.comment).text })
  | "enum" => do
    let text ← node.bodyText
    return (found, { m with raw := m.raw ++ text, enumRef := text })
  | "$value" => return (found, { m with raw := m.raw ++ (← node.text) })
  | "api" => return (found, { m with api := ← node.text })
  | "values" => return (found, { m with values := ← node.text })
  | "len" => return (found, { m with len := ← node.text })
  | "altlen" => return (found, { m with altLen := ← node.text })
  | "optional" => return (found, { m with isOptional := ← node.text })
  | _ => passed s node

def ofNode (node : Node) : Except Error Member := do
  let (name, m) ← node.fold step (none, {})
  return { m with name := ← required "name" name }

end Member

namespace TypeDecl

def step (s : Option String × TypeDecl) (name : String) (node : Node) :
    Except Error (Step (Option String × TypeDecl)) := do
  let (found, t) := s
  match name with
  | "name" => return .next (some (← node.comment).text, t)
  | "category" => node.choice fun text => (found, { t with category := .ofName text })
  | "requires" => return .next (found, { t with requires := ← node.text })
  | "alias" => return .next (found, { t with aliasOf := ← node.text })
  | "api" => return .next (found, { t with api := ← node.text })
  | "parent" => return .next (found, { t with parent := ← node.text })
  | "returnedonly" => return .next (found, { t with returnedOnly := (← node.text) = "true" })
  | "structextends" => return .next (found, { t with structExtends := ← node.text })
  | "objtypeenum" => return .next (found, { t with objTypeEnum := ← node.text })
  | "bitvalues" => return .next (found, { t with bitValues := ← node.text })
  | "type" => return .next (found, { t with typeTags := t.typeTags ++ [← node.bodyText] })
  | "member" => return .next (found, { t with members := t.members ++ [← Member.ofNode node] })
  | "comment" => return .next (found, { t with comment := (← node.comment).attribute?.or t.comment })
  | "$value" => return .next (found, { t with raw := t.raw ++ (← node.text) })
  | _ => .next <$> passed s node

def ofNode (node : Node) : Except Error TypeDecl := do
  let (name, t) ← (← node.content).foldChoices step (none, {})
  return { t with name := ← required "name" name }

end TypeDecl

namespace EnumBlock

def step (s : Option String × EnumBlock) (name : String) (node : Node) :
    Except Error (Step (Option String × EnumBlock)) := do
  let (found, b) := s
  match name with
  | "name" => return .next (some (← node.text), b)
  | "type" => node.choice fun text => (found, { b with kind := .ofName text })
  | "comment" => return .next (found, { b with comment := (← node.comment).attribute?.or b.comment })
  | "bitwidth" => return .next (found, { b with bitWidth := ← node.number })
  | "enum" => return .next (found, { b with values := b.values ++ [← EnumValue.ofNode node] })
  | _ => .next <$> passed s node

def ofNode (node : Node) : Except Error EnumBlock := do
  let (name, b) ← (← node.content).foldChoices step (none, {})
  return { b with name := ← required "name" name }

end EnumBlock

/-- A dependency and further names that have to hold with it, as one expression. -/
def joinDepends (depends : Option String) (names : List String) : Option String :=
  match depends.toList ++ names with
  | [] => none
  | terms => some ("+".intercalate terms)

def nameOfNode (node : Node) : Except Error String := do
  let found ← node.fold (fun found name child =>
    if name = "name" then once "name" found child.text else passed found child) none
  required "name" found

namespace RequireBlock

structure Partial where
  block : RequireBlock := {}
  depends : Option String := none
  /-- Features and extensions that are named by attributes of their own. -/
  needed : List String := []

def step (s : Partial) (name : String) (node : Node) : Except Error Partial := do
  let b := s.block
  match name with
  | "api" => return { s with block := { b with api := ← node.text } }
  | "depends" => return { s with depends := ← node.text }
  | "feature" | "extension" => return { s with needed := s.needed ++ [← node.text] }
  | "comment" =>
    return { s with block := { b with comment := (← node.comment).attribute?.or b.comment } }
  | "command" =>
    return { s with block := { b with commands := b.commands ++ [← nameOfNode node] } }
  | "type" => return { s with block := { b with types := b.types ++ [← nameOfNode node] } }
  | "enum" =>
    return { s with block := { b with enums := b.enums ++ [← RequiredEnum.ofNode node] } }
  | _ => passed s node

def ofNode (node : Node) : Except Error RequireBlock := do
  let s ← node.fold step {}
  return { s.block with depends := joinDepends s.depends s.needed }

end RequireBlock

namespace Feature

def step (s : Option String × Feature) (name : String) (node : Node) :
    Except Error (Option String × Feature) := do
  let (found, f) := s
  match name with
  | "api" => return (found, { f with api := ← node.text })
  | "name" => return (some (← node.text), f)
  | "number" => return (found, { f with number := ← node.text })
  | "comment" => return (found, { f with comment := (← node.comment).text })
  | "require" => return (found, { f with require := f.require ++ [← RequireBlock.ofNode node] })
  | _ => passed s node

def ofNode (node : Node) : Except Error Feature := do
  let (name, f) ← node.fold step (none, {})
  return { f with name := ← required "name" name }

end Feature

namespace Extension

structure Partial where
  extension : Extension := {}
  name : Option String := none
  number : Option Nat := none
  depends : Option String := none
  needed : List String := []

def step (s : Partial) (name : String) (node : Node) : Except Error Partial := do
  let e := s.extension
  match name with
  | "name" => return { s with name := ← node.text }
  | "number" => return { s with number := ← node.number }
  | "type" => return { s with extension := { e with extType := ← node.text } }
  | "supported" => return { s with extension := { e with supported := ← node.text } }
  | "depends" => return { s with depends := ← node.text }
  | "requires" => do
    let names := (Text.split ',' (← node.text)).map Text.trim
    return { s with needed := s.needed ++ names }
  | "requirescore" => return { s with needed := s.needed ++ [← node.text] }
  | "platform" => return { s with extension := { e with platform := ← node.text } }
  | "promotedto" => return { s with extension := { e with promotedTo := ← node.text } }
  | "deprecatedby" => return { s with extension := { e with deprecatedBy := ← node.text } }
  | "provisional" => return { s with extension := { e with provisional := (← node.text) = "true" } }
  | "comment" => return { s with extension := { e with comment := (← node.comment).text } }
  | "require" =>
    return { s with extension := { e with require := e.require ++ [← RequireBlock.ofNode node] } }
  | _ => passed s node

def ofNode (node : Node) : Except Error Extension := do
  let s ← node.fold step {}
  let name ← required "name" s.name
  let number ← required "number" s.number
  return { s.extension with name, number, depends := joinDepends s.depends s.needed }

end Extension

namespace Prototype

def step (s : Option String × Prototype) (name : String) (node : Node) :
    Except Error (Option String × Prototype) := do
  let (found, p) := s
  match name with
  | "type" => return (found, { p with typeName := ← node.bodyText })
  | "name" => return (some (← node.bodyText), p)
  | "$value" => return (found, { p with raw := p.raw ++ (← node.text) })
  | _ => passed s node

def ofNode (node : Node) : Except Error Prototype := do
  let (name, p) ← node.fold step (none, {})
  return { p with name := ← required "name" name }

end Prototype

namespace Parameter

def step (s : Option String × Parameter) (name : String) (node : Node) :
    Except Error (Option String × Parameter) := do
  let (found, p) := s
  match name with
  | "type" => return (found, { p with typeName := ← node.bodyText })
  | "name" => return (some (← node.bodyText), p)
  | "$value" => return (found, { p with raw := p.raw ++ (← node.text) })
  | "api" => return (found, { p with api := ← node.text })
  | "len" => return (found, { p with len := ← node.text })
  | "altlen" => return (found, { p with altLen := ← node.text })
  | "optional" => return (found, { p with isOptional := ← node.text })
  | _ => passed s node

def ofNode (node : Node) : Except Error Parameter := do
  let (name, p) ← node.fold step (none, {})
  return { p with name := ← required "name" name }

end Parameter

namespace Command

def step (s : Option Prototype × Command) (name : String) (node : Node) :
    Except Error (Option Prototype × Command) := do
  let (proto, c) := s
  match name with
  | "name" => return (proto, { c with nameAttr := ← node.text })
  | "alias" => return (proto, { c with aliasOf := ← node.text })
  | "api" => return (proto, { c with api := ← node.text })
  | "successcodes" => return (proto, { c with successCodes := ← node.text })
  | "errorcodes" => return (proto, { c with errorCodes := ← node.text })
  | "comment" => return (proto, { c with comment := (← node.comment).text })
  | "proto" => return (some (← Prototype.ofNode node), c)
  | "param" => return (proto, { c with params := c.params ++ [← Parameter.ofNode node] })
  | _ => passed s node

def ofNode (node : Node) : Except Error Command := do
  let (proto, c) ← node.fold step (none, {})
  match proto with
  | some proto => return { c with proto }
  | none =>
    if c.aliasOf.isSome && c.nameAttr.isSome then return c else .error .unnamedCommand

end Command

namespace Registry

def step (r : Registry) (name : String) (node : Node) : Except Error Registry := do
  match name with
  | "comment" => return { r with comments := r.comments ++ [← node.bodyText] }
  | "platforms" =>
    return { r with platforms := r.platforms ++ (← node.children "platform" Platform.ofNode) }
  | "types" => return { r with types := r.types ++ (← node.children "type" TypeDecl.ofNode) }
  | "enums" => return { r with enums := r.enums ++ [← EnumBlock.ofNode node] }
  | "commands" =>
    return { r with commands := r.commands ++ (← node.children "command" Command.ofNode) }
  | "feature" => return { r with features := r.features ++ [← Feature.ofNode node] }
  | "extensions" =>
    return { r with
      extensions := r.extensions ++ (← node.children "extension" Extension.ofNode) }
  | _ => passed r node

def ofDocument (document : Content) : Except Error Registry := do
  (← document.root).fold step {}

def summary (r : Registry) : Record :=
  ⟨.debug, s!"registry: {r.types.length} types, {r.enums.length} enums blocks, " ++
    s!"{r.commands.length} commands, {r.features.length} features, " ++
    s!"{r.extensions.length} extensions"⟩

def read (document : Content) : Logged (Except Error Registry) :=
  match ofDocument document with
  | .ok r => ⟨.ok r, [r.summary]⟩
  | .error e => ⟨.error e, []⟩

end Registry

end VulkanBindings
