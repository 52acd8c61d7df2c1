import VulkanBindings.Xml.Input
import VulkanBindings.Xml.Reference

/-! A document as a list of events: attributes, texts, and the begin and end of elements. The
list ends where the document does or where it cannot be read on; the reason comes with it. -/

set_option autoImplicit false

namespace VulkanBindings.Xml

inductive Leaf where
  | attribute (text : Except Error String)
  | unquoted (error : Error)
  | body (text : Except Error String)

inductive Event where
  | leaf (name : String) (value : Leaf)
  /-- The name of a tag, `bare` if nothing but `>` follows it. -/
  | opened (name : String) (bare : Bool)
  | closed (left : Nat)

def textName : String := "$value"

structure Scanner where
  /-- Whether the attributes of the innermost open element are being read. -/
  inTag : Bool
  stack : List String
  input : Input

namespace Scanner

def start (input : Input) : Scanner := ⟨false, [], input⟩

def isSpace (b : UInt8) : Bool :=
  b = 0x20 || b = 0x09 || b = 0x0A || b = 0x0C || b = 0x0D

/-- A text as it is meant: without blanks at its ends, the references replaced. -/
def meant (text : List Char) : String :=
  .ofList (Reference.decode (Text.trimChars text))

inductive InTag where
  | attribute (first : Char)
  | content
  | closed

/-- Looks for an attribute or the end of the tag; the state tells whether a slash was read. -/
def inTagStep (slash : Bool) (c : Char) : Except Error (Bool ⊕ InTag) :=
  if slash then
    if c = '>' then .ok (.inr .closed) else .error (.unexpected c "'>'")
  else if Text.isBlank c then .ok (.inl false)
  else if c = '>' then .ok (.inr .content)
  else if c = '/' then .ok (.inl true)
  else .ok (.inr (.attribute c))

def visibleStep (_ : Unit) (c : Char) : Except Error (Unit ⊕ Char) :=
  .ok (if Text.isBlank c then .inl () else .inr c)

def closingStep (name : List Char) (c : Char) : Except Error (List Char ⊕ String) :=
  .ok (if Text.isBlank c then .inl name
    else if c = '>' then .inr (.ofList name.reverse)
    else .inl (c :: name))

inductive CommentEnd where
  | none
  | dash
  | dashes

/-- A comment or declaration, up to two dashes and the end of its tag. -/
def commentStep : CommentEnd → Char → Except Error (CommentEnd ⊕ Unit)
  | .none, c => .ok (.inl (if c = '-' then .dash else .none))
  | .dash, c => .ok (.inl (if c = '-' then .dashes else .none))
  | .dashes, c => .ok (if c = '>' then .inr () else .inl .none)

def instructionStep (mark : Bool) (c : Char) : Except Error (Bool ⊕ Unit) :=
  .ok (if mark && c = '>' then .inr () else .inl (!mark && c = '?'))

def quoteStep (_ : Unit) (c : Char) : Except Error (Unit ⊕ Unit) :=
  if c = '"' then .ok (.inr ())
  else if Text.isBlank c || c = '=' then .ok (.inl ())
  else .error (.unexpected c "'\"', '=' or whitespace")

/-- What one step reads, and how the scan goes on. -/
abbrev Outcome := Option Event × Except Error Scanner

def readAttribute (s : Scanner) (first : Char) (input : Input) : Outcome :=
  match input.readUntil fun b => isSpace b || b = '='.toUInt8 with
  | .error e => (none, .error e)
  | .ok (name, _, input) =>
    let name := String.ofList (first :: name)
    match input.skip.run quoteStep () with
    | .error e => (some (.leaf name (.unquoted e)), .error e)
    | .ok (_, input) =>
      match input.readUntil (· = '"'.toUInt8) with
      | .error e => (some (.leaf name (.attribute (.error e))), .error e)
      | .ok (text, _, input) =>
        (some (.leaf name (.attribute (.ok (meant text)))), .ok { s with input := input.skip })

def readText (s : Scanner) (first : Char) (input : Input) : Outcome :=
  match input.readUntil (· = '<'.toUInt8) with
  | .error e => (some (.leaf textName (.body (.error e))), .error e)
  | .ok (text, _, input) =>
    (some (.leaf textName (.body (.ok (meant (first :: text))))), .ok { s with input })

/-- Reads a tag whose name begins with `first`. A slash after the name is left to be read. -/
def readTag (s : Scanner) (first : Char) (input : Input) : Outcome :=
  match input.readUntil fun b => isSpace b || b = '>'.toUInt8 || b = '/'.toUInt8 with
  | .error e => (none, .error e)
  | .ok (name, b, input) =>
    let name := String.ofList (first :: name)
    let bare := b = '>'.toUInt8
    let input := if b = '/'.toUInt8 then input else input.skip
    (some (.opened name bare), .ok ⟨!bare, name :: s.stack, input⟩)

def readClosing (s : Scanner) (input : Input) : Outcome :=
  match input.run closingStep [] with
  | .error e => (none, .error e)
  | .ok (name, input) =>
    match s.stack with
    | [] => (none, .error (.closingTag name none))
    | top :: stack =>
      if top = name then (some (.closed input.left), .ok ⟨false, stack, input⟩)
      else (none, .error (.closingTag name (some top)))

def passOver (s : Scanner) (read : Except Error (Unit × Input)) : Outcome :=
  (none, read.map fun (_, input) => { s with input })

def step (s : Scanner) : Outcome :=
  if s.inTag then
    match s.input.run inTagStep false with
    | .error e => (none, .error e)
    | .ok (.attribute first, input) => s.readAttribute first input
    | .ok (.content, input) => (none, .ok { s with inTag := false, input })
    | .ok (.closed, input) => (some (.closed input.left), .ok ⟨false, s.stack.tail, input⟩)
  else
    match s.input.run visibleStep () with
    | .error e => (none, .error e)
    | .ok ('<', input) =>
      match input.next with
      | .error e => (none, .error e)
      | .ok ('/', input) => s.readClosing input
      | .ok ('!', input) => s.passOver (input.run commentStep .none)
      | .ok ('?', input) => s.passOver (input.run instructionStep false)
      | .ok (c, input) => s.readTag c input
    | .ok (c, input) => s.readText c input

end Scanner

/-- The events of a document and why there are no more of them. -/
structure Events where
  list : List Event
  failure : Error

namespace Events

-- Adds the events that at most `n` steps read to those in `read`, the latest of which is the
-- first. Every step takes a byte at least.
def collect : Nat → Scanner → List Event → Events
  | 0, _, read => ⟨read.reverse, .endOfDocument⟩
  | n + 1, s, read =>
    let (event, next) := s.step
    let read := event.toList ++ read
    match next with
    | .error e => ⟨read.reverse, e⟩
    | .ok s => collect n s read

def ofInput (input : Input) : Events :=
  collect (input.left + 1) (.start input) []

end Events

end VulkanBindings.Xml
