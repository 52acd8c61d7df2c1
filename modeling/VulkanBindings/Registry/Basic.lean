import VulkanBindings.Text.Blank

/-! The registry of an API: its platforms, types, constants and commands, and the features and
extensions that require them. -/

set_option autoImplicit false

namespace VulkanBindings

/-- A platform and the preprocessor symbol that guards what belongs to it. -/
structure Platform where
  name : String
  protect : String
  comment : Option String
  deriving DecidableEq, Repr

inductive Category where
  | header
  | define
  | basetype
  | handle
  | enum
  | group
  | bitmask
  | funcpointer
  | struct
  | union
  | other
  deriving DecidableEq, Repr

namespace Category

def name : Category → String
  | .header => "include"
  | .define => "define"
  | .basetype => "basetype"
  | .handle => "handle"
  | .enum => "enum"
  | .group => "group"
  | .bitmask => "bitmask"
  | .funcpointer => "funcpointer"
  | .struct => "struct"
  | .union => "union"
  | .other => "none"

def ofName (text : String) : Category :=
  match text with
  | "include" => .header
  | "define" => .define
  | "basetype" => .basetype
  | "handle" => .handle
  | "enum" => .enum
  | "group" => .group
  | "bitmask" => .bitmask
  | "funcpointer" => .funcpointer
  | "struct" => .struct
  | "union" => .union
  | _ => .other

def rank : Category → Nat
  | .header | .other => 0
  | .define => 1
  | .basetype => 2
  | .handle => 3
  | .enum => 4
  | .group => 5
  | .bitmask => 6
  | .funcpointer => 7
  | .struct => 8
  | .union => 9

theorem rank_lt (c : Category) : c.rank < 10 := by
  cases c <;> decide

/-- What a terminal type depends on is not followed. -/
def isTerminal : Category → Bool
  | .header | .enum => true
  | _ => false

end Category

structure Member where
  name : String := ""
  typeName : String := ""
  api : Option String := none
  values : Option String := none
  len : Option String := none
  altLen : Option String := none
  isOptional : Option String := none
  enumRef : Option String := none
  comment : Option String := none
  /-- The text around the type and the name, such as `const*` or `[VK_UUID_SIZE]`. -/
  raw : String := ""
  deriving DecidableEq, Repr

structure TypeDecl where
  name : String := ""
  category : Category := .other
  requires : Option String := none
  aliasOf : Option String := none
  api : Option String := none
  parent : Option String := none
  returnedOnly : Bool := false
  structExtends : Option String := none
  objTypeEnum : Option String := none
  bitValues : Option String := none
  typeTags : List String := []
  members : List Member := []
  comment : Option String := none
  /-- The text of the declaration without what its child elements hold. -/
  raw : String := ""
  deriving DecidableEq, Repr

namespace TypeDecl

/-- Two declarations that differ in members and comments at most are one definition. -/
def sameDefinition (a b : TypeDecl) : Bool :=
  a.name = b.name && a.category = b.category && a.requires = b.requires && a.aliasOf = b.aliasOf &&
    a.api = b.api && a.parent = b.parent && a.returnedOnly = b.returnedOnly &&
    a.structExtends = b.structExtends && a.objTypeEnum = b.objTypeEnum &&
    a.bitValues = b.bitValues && a.typeTags = b.typeTags && a.raw = b.raw

def typeTag? (t : TypeDecl) : Option String := t.typeTags.head?

def parents (t : TypeDecl) : List String := (t.parent.map Text.commaList).getD []

end TypeDecl

inductive BlockKind where
  | enum
  | bitmask
  | other
  deriving DecidableEq, Repr

namespace BlockKind

def name : BlockKind → String
  | .enum => "enum"
  | .bitmask => "bitmask"
  | .other => "none"

def ofName (text : String) : BlockKind :=
  match text with
  | "enum" => .enum
  | "bitmask" => .bitmask
  | _ => .other

end BlockKind

/-- A named constant: a value, a bit, or another name for a constant. -/
structure EnumValue where
  name : String := ""
  value : Option String := none
  bitPos : Option Nat := none
  aliasOf : Option String := none
  api : Option String := none
  typeAttr : Option String := none
  deprecated : Option String := none
  protect : Option String := none
  comment : Option String := none
  deriving DecidableEq, Repr

def EnumValue.sameDefinition (a b : EnumValue) : Bool :=
  a.name = b.name && a.value = b.value && a.bitPos = b.bitPos && a.aliasOf = b.aliasOf &&
    a.api = b.api && a.typeAttr = b.typeAttr && a.deprecated = b.deprecated &&
    a.protect = b.protect

structure EnumBlock where
  name : String := ""
  kind : BlockKind := .other
  comment : Option String := none
  bitWidth : Option Nat := none
  values : List EnumValue := []
  deriving DecidableEq, Repr

/-- An enum value that a feature or an extension requires, or adds to a type. -/
structure RequiredEnum where
  element : EnumValue := {}
  extends? : Option String := none
  extNumber : Option Nat := none
  offset : Option Nat := none
  dir : Option String := none
  deriving DecidableEq, Repr

namespace RequiredEnum

def name (e : RequiredEnum) : String := e.element.name

/-- A reference only names a value that is defined elsewhere. -/
def isReference (e : RequiredEnum) : Bool :=
  e.element.value.isNone && e.element.bitPos.isNone && e.element.aliasOf.isNone && e.offset.isNone

end RequiredEnum

structure RequireBlock where
  api : Option String := none
  depends : Option String := none
  comment : Option String := none
  commands : List String := []
  types : List String := []
  enums : List RequiredEnum := []
  deriving DecidableEq, Repr

structure Feature where
  api : Option String := none
  name : String := ""
  number : String := ""
  comment : Option String := none
  require : List RequireBlock := []
  deriving DecidableEq, Repr

structure Extension where
  name : String := ""
  number : Nat := 0
  extType : Option String := none
  supported : Option String := none
  /-- A dependency expression: `+` is a conjunction and `,` a disjunction. -/
  depends : Option String := none
  platform : Option String := none
  promotedTo : Option String := none
  deprecatedBy : Option String := none
  provisional : Bool := false
  comment : Option String := none
  require : List RequireBlock := []
  deriving DecidableEq, Repr

structure Prototype where
  typeName : String := ""
  name : String := ""
  raw : String := ""
  deriving DecidableEq, Repr

structure Parameter where
  name : String := ""
  typeName : String := ""
  api : Option String := none
  len : Option String := none
  altLen : Option String := none
  isOptional : Option String := none
  raw : String := ""
  deriving DecidableEq, Repr

structure Command where
  aliasOf : Option String := none
  nameAttr : Option String := none
  api : Option String := none
  proto : Prototype := {}
  params : List Parameter := []
  successCodes : Option String := none
  errorCodes : Option String := none
  comment : Option String := none
  deriving DecidableEq, Repr

/-- An alias carries its name as an attribute, any other command in its prototype. -/
def Command.name (c : Command) : String :=
  match c.aliasOf, c.nameAttr with
  | some _, some name => name
  | _, _ => c.proto.name

structure Registry where
  comments : List String := []
  platforms : List Platform := []
  types : List TypeDecl := []
  enums : List EnumBlock := []
  commands : List Command := []
  features : List Feature := []
  extensions : List Extension := []
  deriving DecidableEq, Repr

namespace Registry

/-- Whether an element belongs to an API: without a list of APIs it belongs to every one. -/
def admits (list : Option String) (api : String) : Bool :=
  match list with
  | none => true
  | some list => (Text.commaList list).contains api

def requireFor (api : String) (blocks : List RequireBlock) : List RequireBlock :=
  (blocks.filter fun r => admits r.api api).map fun r =>
    { r with enums := r.enums.filter fun e => admits e.element.api api }

/-- What belongs to an API. An extension has to be said to support it. -/
def forApi (r : Registry) (api : String) : Registry :=
  { r with
    types := (r.types.filter fun t => admits t.api api).map fun t =>
      { t with members := t.members.filter fun m => admits m.api api }
    enums := r.enums.map fun b =>
      { b with values := b.values.filter fun v => admits v.api api }
    commands := (r.commands.filter fun c => admits c.api api).map fun c =>
      { c with params := c.params.filter fun p => admits p.api api }
    features := (r.features.filter fun f => admits f.api api).map fun f =>
      { f with require := requireFor api f.require }
    extensions := (r.extensions.filter fun e => e.supported.isSome && admits e.supported api).map
      fun e => { e with require := requireFor api e.require } }

end Registry

end VulkanBindings
