import VulkanBindings.Text.Number

/-! References: characters written by name or by number between an ampersand and a semicolon. -/

set_option autoImplicit false

namespace VulkanBindings.Xml.Reference

def scalar? (n : Nat) : Option Char :=
  if n.isValidChar then some (.ofNat n) else none

def character? (name : List Char) : Option Char :=
  match name with
  | '#' :: 'x' :: digits | '#' :: 'X' :: digits => (Text.natural? 16 digits).bind scalar?
  | '#' :: digits => (Text.natural? 10 digits).bind scalar?
  | _ =>
    match String.ofList name with
    | "exclamation" => some '!'
    | "quot" => some '"'
    | "percent" => some '%'
    | "amp" => some '&'
    | "apos" => some '\''
    | "add" => some '+'
    | "lt" => some '<'
    | "equal" => some '='
    | "gt" => some '>'
    | _ => none

def nameBefore? (text : List Char) : Option (List Char) :=
  if text.contains ';' then some (text.takeWhile (· ≠ ';')) else none

/-- Decodes the text after `skip` more characters, which belong to a reference already decoded. -/
def decodeAfter : Nat → List Char → List Char
  | _, [] => []
  | skip + 1, _ :: rest => decodeAfter skip rest
  | 0, '&' :: rest =>
    match (nameBefore? rest).bind fun name => (character? name).map (·, name.length + 1) with
    | some (c, length) => c :: decodeAfter length rest
    | none => '&' :: decodeAfter 0 rest
  | 0, c :: rest => c :: decodeAfter 0 rest

/-- A text with every reference replaced by its character; what is no reference stays. -/
def decode (text : List Char) : List Char :=
  decodeAfter 0 text

end VulkanBindings.Xml.Reference
