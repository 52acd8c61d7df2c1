import VulkanBindings.Spelling.Basic

/-! What the generated files declare: constants, types and commands, with every name and type
spelled out. -/

set_option autoImplicit false

namespace VulkanBindings

structure VersionItem where
  name : Spelling
  headerVersion : Spelling
  value : String
  /-- For each enabled core version its name and what it is made of. -/
  apiVersions : List (String × String)
  deriving DecidableEq, Repr

structure EnumEntry where
  name : Spelling
  value : Spelling
  /-- Another name for a value. The reverse look-up leaves it out. -/
  isAlias : Bool
  deriving DecidableEq, Repr

structure EnumItem where
  name : Spelling
  type : Spelling
  entries : List EnumEntry
  deriving DecidableEq, Repr

structure FieldItem where
  name : Spelling
  type : Spelling
  value : Option Spelling
  isCopied : Bool
  /-- The index of the field that says how long this one is. -/
  length : Option Nat
  deriving DecidableEq, Repr

structure StructItem where
  name : Spelling
  fields : List FieldItem
  isReadOnly : Bool
  deriving DecidableEq, Repr

structure ParameterItem where
  name : Spelling
  type : Spelling
  typeName : String
  deriving DecidableEq, Repr

structure CommandItem where
  name : Spelling
  result : Spelling
  params : List ParameterItem
  deriving DecidableEq, Repr

inductive Item where
  | constants (entries : List (Spelling × Spelling))
  | version (item : VersionItem)
  | headerVersion (item : VersionItem)
  | base (name type : Spelling)
  | handle (name : Spelling) (parent : Option Spelling)
  | enum (item : EnumItem)
  | bitmask (name type : Spelling)
  | function (name type : Spelling)
  | struct (item : StructItem)
  | synonym (name target : Spelling)
  | union (name : Spelling)
  | command (item : CommandItem)
  deriving DecidableEq, Repr

def Item.command? : Item → Option CommandItem
  | .command item => some item
  | _ => none

def Item.commands (items : List Item) : List CommandItem := items.filterMap Item.command?

end VulkanBindings
