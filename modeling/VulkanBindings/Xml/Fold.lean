import VulkanBindings.Xml.Node

/-! Reading an element by what its entries are called: a step per entry, in order, then the end
of the element. -/

set_option autoImplicit false

namespace VulkanBindings.Xml

inductive Step (σ : Type) where
  | next (state : σ)
  /-- The entry was an element that stands for a choice: the name of the next entry is it. -/
  | choose (chosen : String → σ)

namespace Content

variable {σ : Type}

def foldChoices (step : σ → String → Node → Except Error (Step σ)) (state : σ) (c : Content) :
    Except Error σ :=
  go state c.entries
where
  go (state : σ) : List (String × Node) → Except Error σ
    | [] => do
      let _ ← c.ending
      return state
    | (name, node) :: rest => do
      match ← step state name node with
      | .next state => go state rest
      | .choose chosen =>
        match rest with
        | [] => do
          let _ ← c.ending
          .error .missingChoice
        | (name, node) :: rest => do
          node.skip
          go (chosen name) rest

def fold (step : σ → String → Node → Except Error σ) (state : σ) (c : Content) :
    Except Error σ :=
  c.foldChoices (fun state name node => .next <$> step state name node) state

end Content

namespace Node

def fold {σ : Type} (step : σ → String → Node → Except Error σ) (state : σ) (node : Node) :
    Except Error σ := do
  (← node.content).fold step state

def children {α : Type} (wanted : String) (read : Node → Except Error α) (node : Node) :
    Except Error (List α) :=
  node.fold (fun found name child =>
    if name = wanted then return found ++ [← read child]
    else do
      child.skip
      return found) []

def bodyText (node : Node) : Except Error String := do
  (← node.content).text

/-- A choice among names: a text is it, after an element the next entry's name is it. -/
def choice {σ : Type} (chosen : String → σ) : Node → Except Error (Step σ)
  | .leaf value => return .next (chosen (← value.text))
  | node => do
    node.skip
    return .choose chosen

def number (node : Node) : Except Error Nat := do
  let text ← node.text
  match Text.word32? text.toList with
  | some n => return n
  | none => .error (.unreadable text "u32")

end Node

inductive Comment where
  | attribute (text : String)
  | element (text : String)

def Comment.text : Comment → String
  | .attribute text | .element text => text

def Comment.attribute? : Comment → Option String
  | .attribute text => some text
  | .element _ => none

/-- An element is a comment if one of its entries is a text, and only one. -/
def Node.comment : Node → Except Error Comment
  | .leaf value => .attribute <$> value.text
  | .element _ entries ending => do
    let trees ← treesOf entries
    let _ ← ending
    match trees.filter (·.1 = textName) with
    | [(_, .text text)] => return .element text
    | _ => .error .unreadableComment

def once {α : Type} (name : String) (found : Option α) (read : Except Error α) :
    Except Error (Option α) :=
  match found with
  | some _ => .error (.duplicateField name)
  | none => some <$> read

def required {α : Type} (name : String) : Option α → Except Error α
  | some a => return a
  | none => .error (.missingField name)

end VulkanBindings.Xml
