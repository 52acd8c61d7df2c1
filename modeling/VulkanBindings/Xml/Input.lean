import VulkanBindings.Text.Blank
import VulkanBindings.Xml.Error

/-! A document as it is delivered: in blocks of bytes. Single characters are read across the
ends of blocks; a run up to a delimiter is decoded block by block, so that a character which the
end of a block cuts is an error there. -/

set_option autoImplicit false

namespace VulkanBindings.Xml

structure Input where
  blocks : List (List UInt8)
  left : Nat

namespace Input

def cut (size : Nat) : Nat → List UInt8 → List (List UInt8)
  | _, [] => []
  | 0, bytes => [bytes]
  | n + 1, bytes => bytes.take size :: cut size n (bytes.drop size)

/-- The bytes that may stand before a text to say that it is UTF-8. -/
def byteOrderMark : List UInt8 := [0xEF, 0xBB, 0xBF]

/-- The blocks of a document without its byte order mark, which is looked for in the first block. -/
def unmarked : List (List UInt8) → List (List UInt8)
  | [] => []
  | block :: later =>
    (if byteOrderMark.isPrefixOf block then block.drop 3 else block) :: later

def ofBlocks (blocks : List (List UInt8)) : Input :=
  let blocks := unmarked blocks
  ⟨blocks, blocks.flatten.length⟩

def ofBytes (bytes : List UInt8) (size : Option Nat) : Input :=
  ofBlocks (match size with
    | none => [bytes]
    | some size => cut size bytes.length bytes)

def uncons? : List (List UInt8) → Option (UInt8 × List (List UInt8))
  | [] => none
  | [] :: later => uncons? later
  | (b :: block) :: later => some (b, block :: later)

def take? : Nat → List (List UInt8) → Option (List UInt8 × List (List UInt8))
  | 0, blocks => some ([], blocks)
  | n + 1, blocks => do
    let (b, blocks) ← uncons? blocks
    let (bytes, blocks) ← take? n blocks
    return (b :: bytes, blocks)

def tailLength (lead : UInt8) : Nat :=
  if lead < 0x80 then 0
  else if 0xC0 ≤ lead && lead < 0xE0 then 1
  else if 0xE0 ≤ lead && lead < 0xF0 then 2
  else 3

def next (input : Input) : Except Error (Char × Input) :=
  match uncons? input.blocks with
  | none => .error .endOfDocument
  | some (lead, blocks) =>
    match take? (tailLength lead) blocks with
    | none => .error .endOfCharacter
    | some (tail, blocks) =>
      match Text.Utf8.decode (lead :: tail) with
      | .error fault => .error (.invalidText fault)
      | .ok [] => .error .endOfDocument
      | .ok (c :: _) => .ok (c, ⟨blocks, input.left - (tail.length + 1)⟩)

def textUntil (stop : UInt8 → Bool) :
    List (List UInt8) → Except Error (List Char × UInt8 × List (List UInt8))
  | [] => .error .endOfDocument
  | block :: later =>
    match Text.Utf8.decode (block.takeWhile (!stop ·)) with
    | .error fault => .error (.invalidText fault)
    | .ok text =>
      match block.dropWhile (!stop ·) with
      | b :: rest => .ok (text, b, (b :: rest) :: later)
      | [] => do
        let (more, b, blocks) ← textUntil stop later
        return (text ++ more, b, blocks)

/-- Reads up to the first byte that `stop` accepts, which stays unread. -/
def readUntil (stop : UInt8 → Bool) (input : Input) :
    Except Error (List Char × UInt8 × Input) := do
  let (text, b, blocks) ← textUntil stop input.blocks
  return (text, b, ⟨blocks, input.left - Text.Utf8.size text⟩)

def skip (input : Input) : Input :=
  match uncons? input.blocks with
  | none => input
  | some (_, blocks) => ⟨blocks, input.left - 1⟩

def run {σ β : Type} (step : σ → Char → Except Error (σ ⊕ β)) (state : σ) (input : Input) :
    Except Error (β × Input) :=
  go input.left state input
where
  go : Nat → σ → Input → Except Error (β × Input)
    | 0, _, _ => .error .endOfDocument
    | n + 1, state, input => do
      let (c, input) ← input.next
      match ← step state c with
      | .inl state => go n state input
      | .inr result => .ok (result, input)

end Input

end VulkanBindings.Xml
