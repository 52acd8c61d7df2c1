import VulkanBindings.Text.Blank
import VulkanBindings.Text.DecimalDigit

/-! The names and texts that carry version numbers: digits in fixed surroundings. -/

set_option autoImplicit false

namespace VulkanBindings.Version

def digits? (text : List Char) : Option (List Char × List Char) :=
  let digits := text.takeWhile Text.isDecimalDigit
  if digits.isEmpty then none else some (digits, text.dropWhile Text.isDecimalDigit)

/-- The two numbers of a name that consists of `start`, a number, an underscore and a number. -/
def pair? (start : String) (name : String) : Option (String × String) := do
  let rest ← Text.afterStart? start.toList name.toList
  let (major, rest) ← digits? rest
  let rest ← Text.afterStart? ['_'] rest
  let (minor, rest) ← digits? rest
  if rest.isEmpty then some (.ofList major, .ofList minor) else none

def isApiVersion (name : String) : Bool := (pair? "VK_API_VERSION_" name).isSome

/-- For a core version, the name of its constant and what the constant is made of. -/
def ofFeature? (name : String) : Option (String × String) :=
  (pair? "VK_VERSION_" name).map fun (major, minor) =>
    (s!"VK_API_VERSION_{major}_{minor}", s!"0, {major}, {minor}, 0")

def trailingNumber? (text : String) : Option String :=
  (digits? text.toList.reverse).map fun (digits, _) => .ofList digits.reverse

-- The first three of the four arguments of the call that a text ends with, if the last one is
-- the version of the header.
def completeVersion? (text : String) : Option String := do
  let comma := [' ', ',']
  let rest ← Text.beforeEnd? ", VK_HEADER_VERSION)".toList text.toList
  let (patch, rest) ← digits? rest.reverse
  let rest ← Text.afterStart? comma rest
  let (minor, rest) ← digits? rest
  let rest ← Text.afterStart? comma rest
  let (major, rest) ← digits? rest
  let _ ← Text.afterStart? ['('] rest
  return .ofList (patch ++ comma ++ minor ++ comma ++ major).reverse

end VulkanBindings.Version
