import VulkanBindings.Yaml.Scanner

/-! The document of a stream: the tree that its tokens describe. Aliases stay in it as numbers,
beside the nodes that they stand for, so that a tree is finite even where an anchor stands around
its own alias. -/

set_option autoImplicit false

namespace VulkanBindings.Yaml

inductive Node where
  | reference (number : Nat)
  | scalar (text : String) (plain : Bool)
  | sequence (items : List Node)
  | mapping (entries : List (Node × Node))
  deriving Repr

def Node.blank : Node := .scalar "" true

/-- The nodes that have an anchor, in the order in which they begin. The number of an anchor is
how many names had one before. A name that is anchored again has a new number but counts once, so
that a later name can get that number too; then it is the later node's. -/
structure Anchors where
  names : List (String × Nat) := []
  places : List (Nat × Nat) := []
  nodes : List (Nat × Node) := []
  deriving Repr

namespace Anchors

def number? (a : Anchors) (name : String) : Option Nat := a.names.lookup name

def node? (a : Anchors) (number : Nat) : Option Node :=
  (a.places.lookup number).bind (a.nodes.lookup ·)

def add (a : Anchors) (name : String) : Anchors :=
  let number := a.names.length
  { a with
    names := (name, number) :: a.names.filter (·.1 != name)
    places := (number, a.places.length) :: a.places }

end Anchors

structure Document where
  root : Option Node
  anchors : Anchors
  deriving Repr

namespace Document

structure State where
  tokens : List Token
  handles : List (Option (List Char)) := []
  anchors : Anchors := {}

abbrev Reader := StateT State Option

def peek : Reader (Option Token) := do return (← get).tokens.head?

def skip : Reader Unit := modify fun s => { s with tokens := s.tokens.tail }

def expect (token : Token) : Reader Unit := do
  if (← peek) = some token then skip else failure

def anchor? : Reader (Option String) := do
  match ← peek with
  | some (.anchor name) =>
    skip
    return some (.ofList name)
  | _ => return none

-- Reads a tag if there is one, and answers whether there was. A handle other than the two that
-- have a meaning of their own has to be declared.
def tagged : Reader Bool := do
  match ← peek with
  | some (.tag handle) =>
    skip
    match handle with
    | none | some [] => return true
    | some _ => if (← get).handles.contains handle then return true else failure
  | _ => return false

/-- Where a node stands: it can be a collection in brackets everywhere, a block outside of
brackets, and a sequence whose dashes stand below its key only in a block mapping. -/
inductive Position where
  | inBrackets
  | inBlock
  | inBlockMapping
  deriving DecidableEq, Repr

def nodeBefore (stops : List Token) (read : Reader Node) : Reader Node := do
  if (← peek).any stops.contains then return .blank else read

def mappingStops : List Token := [.key, .value, .blockEnd]

mutual

/-- Reads a node. The second argument bounds the depth of what is read by recursion. -/
def node (position : Position) : Nat → Reader Node
  | 0 => failure
  | n + 1 => do
    if let some (.reference name) ← peek then
      skip
      match (← get).anchors.number? (.ofList name) with
      | some number => return .reference number
      | none => failure
    let before ← anchor?
    let tag ← tagged
    let name ← if before.isNone && tag then anchor? else pure before
    match name with
    | none => content position tag n
    | some name =>
      let place := (← get).anchors.places.length
      modify fun s => { s with anchors := s.anchors.add name }
      let node ← content position true n
      modify fun s =>
        { s with anchors := { s.anchors with nodes := (place, node) :: s.anchors.nodes } }
      return node

def content (position : Position) (properties : Bool) : Nat → Reader Node
  | 0 => failure
  | n + 1 => do
    match ← peek with
    | some (.scalar text plain) =>
      skip
      return .scalar (.ofList text) plain
    | some .openSequence =>
      skip
      return .sequence (← flowItems true n)
    | some .openMapping =>
      skip
      return .mapping (← flowEntries true n)
    | some .blockSequence =>
      if position = .inBrackets then absent properties else
        skip
        return .sequence (← blockItems false n)
    | some .blockMapping =>
      if position = .inBrackets then absent properties else
        skip
        return .mapping (← blockEntries n)
    | some .dash =>
      if position = .inBlockMapping then return .sequence (← blockItems true n)
      else absent properties
    | _ => absent properties
where
  absent (properties : Bool) : Reader Node :=
    if properties then return .blank else failure

-- Reads the entries of a block sequence. Where its dashes stand below its key, it has no end
-- of its own.
def blockItems (belowKey : Bool) : Nat → Reader (List Node)
  | 0 => failure
  | n + 1 => do
    match ← peek with
    | some .dash =>
      skip
      let stops := if belowKey then .dash :: mappingStops else [.dash, .blockEnd]
      let item ← nodeBefore stops (node .inBlock n)
      return item :: (← blockItems belowKey n)
    | token =>
      if belowKey then return []
      if token = some .blockEnd then
        skip
        return []
      failure

def blockEntries : Nat → Reader (List (Node × Node))
  | 0 => failure
  | n + 1 => do
    match ← peek with
    | some .key =>
      skip
      let key ← nodeBefore mappingStops (node .inBlockMapping n)
      if (← peek) = some .value then
        skip
        let value ← nodeBefore mappingStops (node .inBlockMapping n)
        return (key, value) :: (← blockEntries n)
      else return (key, .blank) :: (← blockEntries n)
    | some .blockEnd =>
      skip
      return []
    | _ => failure

/-- Reads the entries of a sequence in brackets; an entry with a key is a mapping of its own. -/
def flowItems (first : Bool) : Nat → Reader (List Node)
  | 0 => failure
  | n + 1 => do
    if (← peek) = some .closeSequence then
      skip
      return []
    if !first then expect .comma
    match ← peek with
    | some .closeSequence =>
      skip
      return []
    | some .key =>
      skip
      let entry ← flowEntry .closeSequence n
      return .mapping [entry] :: (← flowItems false n)
    | _ =>
      let item ← node .inBrackets n
      return item :: (← flowItems false n)

def flowEntries (first : Bool) : Nat → Reader (List (Node × Node))
  | 0 => failure
  | n + 1 => do
    if (← peek) = some .closeMapping then
      skip
      return []
    if !first then expect .comma
    match ← peek with
    | some .closeMapping =>
      skip
      return []
    | some .key =>
      skip
      let entry ← flowEntry .closeMapping n
      return entry :: (← flowEntries false n)
    | _ =>
      let key ← node .inBrackets n
      return (key, .blank) :: (← flowEntries false n)

def flowEntry (close : Token) : Nat → Reader (Node × Node)
  | 0 => failure
  | n + 1 => do
    let key ← nodeBefore [.value, .comma, close] (node .inBrackets n)
    if (← peek) = some .value then
      skip
      return (key, ← nodeBefore [.comma, close] (node .inBrackets n))
    else return (key, .blank)

end

-- Reads directives: the version at most once, and each handle at most once. The second
-- argument is how many tokens there are.
def directives (versioned : Bool) : Nat → Reader Unit
  | 0 => return
  | n + 1 => do
    match ← peek with
    | some (.version major minor) =>
      if versioned || major != 1 || (minor != 1 && minor != 2) then failure
      skip
      directives true n
    | some (.handle name) =>
      if (← get).handles.contains name then failure
      skip
      modify fun s => { s with handles := name :: s.handles }
      directives versioned n
    | _ => return

def begins : Token → Bool
  | .version .. | .handle _ | .documentStart => true
  | _ => false

def rootNode (n : Nat) : Reader Node := do
  match ← peek with
  | none | some .documentEnd => return .blank
  | some token => if begins token then return .blank else node .inBlock n

def stream : Reader (Option Node) := do
  let n := 2 * (← get).tokens.length + 2
  match ← peek with
  | none => return none
  | some token =>
    let read ←
      if begins token then do
        directives false n
        expect .documentStart
        rootNode n
      else node .inBlock n
    let s ← get
    if s.tokens.all (· = .documentEnd) then return some read else failure

/-- The document of a stream, none if the text is no stream or one of several documents. -/
def ofText? (text : String) : Option Document := do
  let (root, s) ← stream.run { tokens := ← tokens? text }
  return ⟨root, s.anchors⟩

end Document

end VulkanBindings.Yaml
