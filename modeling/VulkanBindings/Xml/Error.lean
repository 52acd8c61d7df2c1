import VulkanBindings.Text.Quoted
import VulkanBindings.Text.Utf8

/-! What can go wrong while a document is read, from its bytes up to the values its elements
are read as. -/

set_option autoImplicit false

namespace VulkanBindings.Xml

/-- Where in a document the value that is to be read next stands. -/
inductive Place where
  | document
  /-- An element, `bare` if its tag has no attributes and no closing slash. -/
  | tag (bare : Bool)
  | attribute
  | body
  deriving DecidableEq, Repr

def Place.name : Place → String
  | .document => "Uninit"
  | .tag true => "TagValue(true)"
  | .tag false => "TagValue(false)"
  | .attribute => "AttrValue"
  | .body => "BodyValue"

inductive Error where
  | endOfDocument
  | endOfCharacter
  | folder
  | invalidText (fault : Text.Utf8.Fault)
  | unexpected (found : Char) (expected : String)
  | closingTag (found : String) (expected : Option String)
  /-- What is asked for does not stand at this place. -/
  | misplaced (place : Place)
  | missingChoice
  | unreadableComment
  | unnamedCommand
  | wrongType (found expected : String)
  | wrongLength (found : Nat) (expected : String)
  | missingField (name : String)
  | duplicateField (name : String)
  | unreadable (text type : String)
  deriving DecidableEq, Repr

def Error.message : Error → String
  | .endOfDocument => "io error: unexpected end of document"
  | .endOfCharacter => "io error: failed to fill whole buffer"
  | .folder => "io error: Is a directory (os error 21)"
  | .invalidText fault => s!"utf8 error: {fault.message}"
  | .unexpected found expected => s!"invalid token: '{found}', expected {expected}"
  | .closingTag found expected =>
    s!"invalid closing tag: `{found}`, expected `{Text.Quoted.quote? expected}`"
  | .misplaced place => s!"invalid state: {place.name}"
  | .missingChoice => "expected an enum variant, found the end of the tag"
  | .unreadableComment => "data did not match any variant of untagged enum CommentVariant"
  | .unnamedCommand => "a command requires either a prototype or a name and an alias"
  | .wrongType found expected => s!"invalid type `{found}`, expected `{expected}`"
  | .wrongLength found expected => s!"invalid length `{found}`, expected `{expected}`"
  | .missingField name => s!"missing field `{name}`"
  | .duplicateField name => s!"duplicate field `{name}`"
  | .unreadable text type => s!"parse error: failed to parse `{text}` as {type}"

end VulkanBindings.Xml
