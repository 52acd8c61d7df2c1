import VulkanBindings.Yaml.Scalar

/-! The tokens of a stream that are written with characters of their own, and how anchors, tags
and directives are read. -/

set_option autoImplicit false

namespace VulkanBindings.Yaml

inductive Token where
  | version (major minor : Nat)
  /-- A directive that gives tags with this handle a meaning: what stands between two
  exclamation marks, or none for a single mark. -/
  | handle (name : Option (List Char))
  | documentStart
  | documentEnd
  | blockSequence
  | blockMapping
  | blockEnd
  | openSequence
  | closeSequence
  | openMapping
  | closeMapping
  | comma
  | dash
  | key
  | value
  | reference (name : List Char)
  | anchor (name : List Char)
  /-- A tag, with its handle if that has to be looked up. -/
  | tag (handle : Option (List Char))
  | scalar (text : List Char) (plain : Bool)
  deriving DecidableEq, Repr

namespace Token

def name? (s : Source) : Option (List Char × Source) :=
  let (name, s) := s.span isWordChar
  if !name.isEmpty && (s.endsWord 0 || s.rest.head?.any ("?:,]\x7d%@`".toList.contains ·)) then
    some (name, s)
  else none

/-- The value of a byte of a tag that is written as a percent sign and two digits. -/
def octet? : List Char → Option Nat
  | '%' :: a :: b :: _ => do return (← Text.digit? 16 a) * 16 + (← Text.digit? 16 b)
  | _ => none

def trailing? (octet : Nat) : Option Nat :=
  if octet < 0x80 then some 0
  else if 0xC0 ≤ octet && octet < 0xE0 then some 1
  else if 0xE0 ≤ octet && octet < 0xF0 then some 2
  else if 0xF0 ≤ octet && octet < 0xF8 then some 3
  else none

def skipTrailing? : Nat → Source → Option Source
  | 0, s => some s
  | n + 1, s => do
    let octet ← octet? s.rest
    if octet / 64 == 2 then skipTrailing? n (s.skip 3) else none

def isTagChar (verbatim : Bool) (c : Char) : Bool :=
  isWordChar c || ";/?:@&=+$.!~*'()".toList.contains c || (verbatim && ",[]".toList.contains c)

def tagText? (verbatim : Bool) : Nat → Source → Option (Bool × Source)
  | 0, s => some (false, s)
  | n + 1, s =>
    match s.rest with
    | [] => some (false, s)
    | c :: _ =>
      if c == '%' then do
        let s ← skipTrailing? (← trailing? (← octet? s.rest)) (s.skip 3)
        let (_, s) ← tagText? verbatim n s
        return (true, s)
      else if isTagChar verbatim c then do
        let (_, s) ← tagText? verbatim n s.next
        return (true, s)
      else some (false, s)

def tag? (flow : Bool) (s : Source) : Option (Token × Source) := do
  let (named, s) ←
    if s.rest.head? = some '<' then do
      let (found, s) ← tagText? true s.rest.length s.next
      if found && s.rest.head? = some '>' then some (none, s.next) else none
    else do
      let (word, after) := s.span isWordChar
      if after.rest.head? = some '!' then do
        let (found, s) ← tagText? false after.rest.length after.next
        if found then some (some word, s) else none
      else do
        let (_, s) ← tagText? false after.rest.length after
        some (none, s)
  if (flow && s.rest.head? = some ',') || s.endsWord 0 then return (.tag named, s) else none

def number? (s : Source) : Option (Nat × Source) := do
  let (digits, s) := s.span Char.isDigit
  if digits.length ≤ 9 then return (← Text.digits? 10 digits, s) else none

-- Reads the handle that a directive declares, between its exclamation marks; the first mark
-- can stand alone.
def handle? (s : Source) : Option (Option (List Char) × Source) := do
  if s.rest.head? != some '!' then none
  let (word, s) := s.next.span isWordChar
  if s.rest.head? = some '!' then return (some word, s.next)
  if word.isEmpty then return (none, s) else none

def declaration? (name : List Char) (s : Source) : Option (Token × Source) := do
  if name = "YAML".toList then
    let (major, s) ← number? s
    if s.rest.head? != some '.' then none
    let (minor, s) ← number? s.next
    return (.version major minor, s)
  else if name = "TAG".toList then
    let (named, s) ← handle? s
    if !s.rest.head?.any isSpace then none
    let s := (s.span isSpace).2
    let (found, s) ← tagText? true s.rest.length s
    if found && s.endsWord 0 then return (.handle named, s) else none
  else none

def directive? (s : Source) : Option (Token × Source) := do
  let (name, s) := s.span isWordChar
  if !s.endsWord 0 then none
  let (token, s) ← declaration? name (s.span isSpace).2
  return (token, ← s.finishLine?)

end Token

end VulkanBindings.Yaml
