import Std.Data.TreeMap.Basic
import VulkanBindings.Registry.Basic
import VulkanBindings.Spelling.Declarator

/-! The spellings of registry names, as they were first asked for. A name keeps its spelling. -/

set_option autoImplicit false

namespace VulkanBindings

structure Glossary where
  entries : Std.TreeMap String Spelling
  stripped : List String

namespace Glossary

def ofScalars (stripped : List String) : Glossary :=
  ⟨Scalar.all.foldl (fun entries s => entries.insert s.c (.scalar s)) {}, stripped⟩

def find? (g : Glossary) (name : String) : Option Spelling := g.entries[name]?

def scalar? (name : String) : Option Spelling := (Scalar.find? name).map .scalar

def exported (g : Glossary) (s : Spelling) : Spelling := .exported s g.stripped

/-- The spelling of a name, which is `s` made public if it has none yet. -/
def enter (name : String) (s : Spelling) : StateM Glossary Spelling := fun g =>
  match g.find? name with
  | some known => (known, g)
  | none => (g.exported s, { g with entries := g.entries.insert name (g.exported s) })

/-- Commands, base types, handles, enums and their values, function pointers and unions. -/
def named (name : String) : StateM Glossary Spelling := enter name (.typedef name)

def define (name : String) : StateM Glossary Spelling := enter name (.camel name)

def struct (name : String) : StateM Glossary Spelling := enter name (.struct name)

def typeDecl (t : TypeDecl) : StateM Glossary (Option Spelling) :=
  match t.category with
  | .define => some <$> define t.name
  | .struct => some <$> struct t.name
  | .basetype | .handle | .enum | .bitmask | .funcpointer | .union => some <$> named t.name
  | .header | .group | .other => return none

-- The type of a member or a parameter. `raw` is the text around the type and the name, and
-- `len` says what the lengths of lists are.
def memberType (g : Glossary) (typeName : String) (len : Option String) (raw : String) :
    Spelling :=
  let name := Declarator.baseName typeName raw
  (Declarator.layers (name = "void*") len raw).apply ((g.find? name).getD (.typedef name))

end Glossary

end VulkanBindings
