import VulkanBindings.Xml.Scanner

/-! A document as a tree of named entries. Attributes, texts and child elements are entries
alike. A broken document is a tree too: the element that is open where it breaks ends with the
reason, and whoever reads that far meets it. -/

set_option autoImplicit false

namespace VulkanBindings.Xml

/-- How the entries of an element end: at its end, with the number of bytes after it, or where
the document breaks. -/
abbrev Ending := Except Error Nat

inductive Node where
  | leaf (value : Leaf)
  | element (bare : Bool) (entries : List (String × Node)) (ending : Ending)

structure Content where
  entries : List (String × Node)
  ending : Ending

def Content.cons (name : String) (node : Node) (c : Content) : Content :=
  { c with entries := (name, node) :: c.entries }

/-- What is still to be read at a point of a document: the rest of the innermost open element,
then the rests of those around it. -/
structure Rests where
  here : Content
  outer : List Content

namespace Rests

/-- A document breaks for every open element at once. -/
def broken (failure : Error) : Content := ⟨[], .error failure⟩

def before (failure : Error) (event : Event) (after : Rests) : Rests :=
  match event with
  | .leaf name value => { after with here := after.here.cons name (.leaf value) }
  | .closed left => ⟨⟨[], .ok left⟩, after.here :: after.outer⟩
  | .opened name bare =>
    let element := Node.element bare after.here.entries after.here.ending
    ⟨(after.outer.headD (broken failure)).cons name element, after.outer.tail⟩

end Rests

def Content.ofEvents (events : Events) : Content :=
  (events.list.foldr (Rests.before events.failure) ⟨Rests.broken events.failure, []⟩).here

def Content.ofInput (input : Input) : Content :=
  .ofEvents (.ofInput input)

def Leaf.place : Leaf → Place
  | .attribute _ | .unquoted _ => .attribute
  | .body _ => .body

def Leaf.text : Leaf → Except Error String
  | .attribute text | .body text => text
  | .unquoted e => .error e

namespace Node

def place : Node → Place
  | .leaf value => value.place
  | .element bare _ _ => .tag bare

/-- The entries of an element. The opening quote of an attribute is looked for first. -/
def content : Node → Except Error Content
  | .leaf (.unquoted e) => .error e
  | .leaf value => .error (.misplaced value.place)
  | .element _ entries ending => .ok ⟨entries, ending⟩

end Node

inductive Tree where
  | text (value : String)
  | element (entries : List (String × Tree))

mutual

def Node.tree : Node → Except Error Tree
  | .leaf value => return .text (← value.text)
  | .element _ entries ending => do
    let trees ← treesOf entries
    let _ ← ending
    return .element trees

def treesOf : List (String × Node) → Except Error (List (String × Tree))
  | [] => return []
  | (name, node) :: rest => do
    let tree ← node.tree
    let trees ← treesOf rest
    return (name, tree) :: trees

end

def Node.skip (node : Node) : Except Error Unit := do
  let _ ← node.tree

mutual

-- The text of a leaf, or of an element that is written for one: it has a bare tag and one
-- text.
def Node.text : Node → Except Error String
  | .leaf value => value.text
  | .element false _ _ => .error (.misplaced (.tag false))
  | .element true entries ending => textAmong none entries ending

def textAmong (found : Option String) : List (String × Node) → Ending → Except Error String
  | [], ending => do
    let _ ← ending
    match found with
    | some text => return text
    | none => .error (.missingField textName)
  | (name, node) :: rest, ending =>
    if name = textName then
      match found with
      | some _ => .error (.duplicateField textName)
      | none => do
        let text ← node.text
        textAmong (some text) rest ending
    else do
      let _ ← node.tree
      textAmong found rest ending

end

def Content.text (c : Content) : Except Error String :=
  textAmong none c.entries c.ending

/-- The first entry of a document, which is its root if it is an element. -/
def Content.root (c : Content) : Except Error Node :=
  match c.entries, c.ending with
  | (_, node) :: _, _ => .ok node
  | [], .error e => .error e
  | [], .ok _ => .error .endOfDocument

end VulkanBindings.Xml
