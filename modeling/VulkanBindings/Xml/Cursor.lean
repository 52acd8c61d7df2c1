import VulkanBindings.Xml.Node

/-! A position between the entries of a document. A reader that leaves an element half read
leaves the cursor inside it: the entries that follow are then those of that element. -/

set_option autoImplicit false

namespace VulkanBindings.Xml

inductive Pending where
  | name
  | root
  | value (node : Node)

structure Cursor where
  pending : Pending
  rests : Rests

abbrev Read := StateT Cursor (Except Error)

mutual

def Node.size : Node → Nat
  | .leaf _ => 1
  | .element _ entries _ => sizeOf entries + 1

def sizeOf : List (String × Node) → Nat
  | [] => 0
  | (_, node) :: rest => node.size + sizeOf rest

end

namespace Cursor

def start (document : Content) : Cursor :=
  ⟨.root, ⟨document, []⟩⟩

def Pending.size : Pending → Nat
  | .value node => node.size
  | _ => 0

def size (c : Cursor) : Nat :=
  Pending.size c.pending + sizeOf c.rests.here.entries +
    c.rests.outer.foldr (fun rest n => sizeOf rest.entries + n) 0

end Cursor

namespace Read

def fail {α : Type} (e : Error) : Read α := fun _ => .error e

def name? : Read (Option String) := fun c =>
  match c.pending, c.rests with
  | .value node, _ => .error (.misplaced node.place)
  | _, ⟨⟨(name, node) :: entries, ending⟩, outer⟩ =>
    .ok (some name, ⟨.value node, ⟨⟨entries, ending⟩, outer⟩⟩)
  | _, ⟨⟨[], .error e⟩, _⟩ => .error e
  | _, ⟨⟨[], .ok _⟩, here :: outer⟩ => .ok (none, ⟨.name, ⟨here, outer⟩⟩)
  | _, ⟨⟨[], .ok _⟩, []⟩ => .error .endOfDocument

def pending : Read Node := fun c =>
  match c.pending with
  | .value node => .ok (node, c)
  | _ => .error (.misplaced .document)

/-- Before the root, goes to the root, which has to be an element. Elsewhere does nothing. -/
def descend : Read Unit := do
  match (← get).pending with
  | .root => do
    let _ ← name?
    let _ ← (← pending).content
  | _ => return

def begin : Read Unit := do
  match ← pending with
  | .leaf (.unquoted e) => fail e
  | _ => return

def value {α : Type} (f : Node → Except Error α) : Read α := do
  let a ← f (← pending)
  modify fun c => { c with pending := .name }
  return a

def enter : Read Unit := do
  descend
  let inner ← value Node.content
  modify fun c => { c with rests := ⟨inner, c.rests.here :: c.rests.outer⟩ }

def entries {α : Type} (f : String → Read α) : Read (List α) := fun c =>
  go (c.size + 1) [] c
where
  go : Nat → List α → Read (List α)
    | 0, _ => fail .endOfDocument
    | n + 1, read => do
      match ← name? with
      | none => return read.reverse
      | some name => go n ((← f name) :: read)

end Read

end VulkanBindings.Xml
