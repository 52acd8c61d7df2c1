import VulkanBindings.Text.Decimal
import VulkanBindings.Xml.Cursor

/-! Reading a document in a given shape. A shape says what is asked for at each place; the value
says what was found there. -/

set_option autoImplicit false

namespace VulkanBindings.Xml

mutual

inductive Shape where
  | any
  | bool
  | char
  | word (type : Text.Word)
  | float (format : Text.FloatFormat)
  | text
  | bytes
  | unit
  | identifier
  | ignored
  | option (shape : Shape)
  | newtype (shape : Shape)
  | seq (shape : Shape)
  | tuple (shapes : List Shape)
  /-- Entries by name; `*` stands for all names that are not listed. -/
  | map (fields : List (String × Shape))
  | choice (variants : List (String × Payload))

inductive Payload where
  | unit
  | newtype (shape : Shape)
  | tuple (shapes : List Shape)
  | map (fields : List (String × Shape))

end

instance : Inhabited Shape := ⟨.any⟩

instance : Inhabited Payload := ⟨.unit⟩

inductive Value where
  | tree (tree : Tree)
  | bool (value : Bool)
  | char (value : Char)
  | int (value : Int)
  | float (format : Text.FloatFormat) (bits : Nat)
  | text (value : String)
  | bytes (value : List UInt8)
  | unit
  | ignored
  | some (value : Value)
  | newtype (value : Value)
  | list (values : List Value)
  | map (entries : List (String × Value))
  | variant (name : String) (payload : Option Value)

namespace Shape

def readBool? (text : String) : Option Bool :=
  if text = "true" then some true else if text = "false" then some false else none

def readChar? (text : String) : Option Char :=
  match text.toList with
  | [c] => some c
  | _ => none

def floatName (format : Text.FloatFormat) : String := "f" ++ toString format.width

def parsed {α : Type} (type : String) (read? : String → Option α) (node : Node) :
    Except Error α := do
  let text ← node.text
  match read? text with
  | some a => return a
  | none => .error (.unreadable text type)

/-- The readers that are looked up by a name, by `*`, or neither. -/
def pick {α : Type} (readers : List (String × α)) (other : α) (name : String) : α :=
  ((readers.lookup name).or (readers.lookup "*")).getD other

def anyValue : Read Value := do
  Read.descend
  Read.value fun node => Value.tree <$> node.tree

def ignoredValue : Read Value := do
  Read.descend
  Read.value fun node => (fun _ => .ignored) <$> node.skip

def readValue (read : Read Value) : Read Value := do
  Read.begin
  read

/-- Reads the values of exactly the next entries. -/
def readTuple : Nat → List (String → Read Value) → Read (List Value)
  | _, [] => return []
  | index, read :: rest => do
    match ← Read.name? with
    | none => Read.fail (.wrongLength index "shape")
    | some name => do
      let value ← read name
      return value :: (← readTuple (index + 1) rest)

def bareVariant (expected : String) : Error :=
  .wrongType "unit variant" expected

/-- How a variant's payload is read after its name, and what it is called in messages if a text
cannot stand for it. -/
structure PayloadReader where
  read : Read (Option Value)
  expected : Option String

def unitReader : PayloadReader where
  read := Read.value fun node => do
    node.skip
    return none
  expected := none

-- Reads a choice: a text is the variant itself; an element is passed over, and the entry after
-- it is the variant.
def readChoice (readers : List (String × PayloadReader)) : Read Value := do
  Read.descend
  match ← Read.pending with
  | .leaf _ => do
    let text ← Read.value Node.text
    match (pick readers unitReader text).expected with
    | none => return .variant text none
    | some expected => Read.fail (bareVariant expected)
  | .element .. => do
    let _ ← Read.value Node.tree
    match ← Read.name? with
    | none => Read.fail .missingChoice
    | some name => do
      Read.begin
      return .variant name (← (pick readers unitReader name).read)

mutual

def read : Shape → Read Value
  | .any => anyValue
  | .bool => Read.value fun n => .bool <$> parsed "bool" readBool? n
  | .char => Read.value fun n => .char <$> parsed "char" readChar? n
  | .word w => Read.value fun n => .int <$> parsed w.name (fun t => w.read? 10 t.toList) n
  | .float f => Read.value fun n =>
    .float f <$> parsed (floatName f) (fun t => f.read? t.toList) n
  | .text => Read.value fun n => .text <$> n.text
  | .bytes => Read.value fun n => (fun t => .bytes (Text.Utf8.encode t)) <$> n.text
  | .unit => Read.value fun n => (fun _ => .unit) <$> n.text
  | .identifier => do Read.fail (.misplaced (← Read.pending).place)
  | .ignored => ignoredValue
  | .option s => Value.some <$> read s
  | .newtype s => Value.newtype <$> read s
  | .seq s => do
    Read.enter
    return .list (← Read.entries (readElement s))
  | .tuple ss => do
    Read.enter
    return .list (← readTuple 0 (elementReaders ss))
  | .map fields => do
    Read.enter
    return .map (← Read.entries fun name => do
      return (name, ← readValue (pick (fieldReaders fields) anyValue name)))
  | .choice variants => readChoice (variantReaders variants)

def readElement : Shape → String → Read Value
  | .identifier, name => return .text name
  | .any, name => do
    Read.begin
    Read.value fun n => do return .tree (.element [(name, ← n.tree)])
  | .ignored, _ => readValue ignoredValue
  | .map fields, name => do
    return .map [(name, ← readValue (pick (fieldReaders fields) anyValue name))]
  | .choice variants, name => do
    Read.begin
    return .variant name (← (pick (variantReaders variants) unitReader name).read)
  | _, _ => Read.fail (.wrongType "map" "shape")

def elementReaders : List Shape → List (String → Read Value)
  | [] => []
  | s :: rest => readElement s :: elementReaders rest

def fieldReaders : List (String × Shape) → List (String × Read Value)
  | [] => []
  | (name, s) :: rest => (name, read s) :: fieldReaders rest

def variantReaders : List (String × Payload) → List (String × PayloadReader)
  | [] => []
  | (name, p) :: rest => (name, payloadReader p) :: variantReaders rest

def payloadReader : Payload → PayloadReader
  | .unit => unitReader
  | .newtype s => ⟨some <$> read s, "newtype variant"⟩
  | .tuple ss =>
    ⟨do
      Read.enter
      return Value.list (← readTuple 0 (elementReaders ss)), "tuple variant"⟩
  | .map fields =>
    ⟨do
      Read.enter
      return Value.map (← Read.entries fun name => do
        return (name, ← readValue (pick (fieldReaders fields) anyValue name))),
      "struct variant"⟩

end

def readDocument (shape : Shape) (document : Content) : Except Error Value :=
  return (← shape.read.run (.start document)).1

end Shape

end VulkanBindings.Xml
