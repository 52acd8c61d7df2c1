/-! Decoding UTF-8, with a report on the first fault: how long the valid part is, and how many
bytes are wrong, unless the text ends inside a character that was valid so far. -/

set_option autoImplicit false

namespace VulkanBindings.Text.Utf8

structure Fault where
  validLength : Nat
  /-- The length of the faulty part, none when the text ends inside a character. -/
  faulty : Option Nat
  deriving DecidableEq, Repr

def Fault.message : Fault → String
  | ⟨index, some n⟩ => s!"invalid utf-8 sequence of {n} bytes from index {index}"
  | ⟨index, none⟩ => s!"incomplete utf-8 byte sequence from index {index}"

def isTail (b : UInt8) : Bool := 0x80 ≤ b && b ≤ 0xBF

def width? (lead : UInt8) : Option Nat :=
  if lead < 0x80 then some 1
  else if 0xC2 ≤ lead && lead ≤ 0xDF then some 2
  else if 0xE0 ≤ lead && lead ≤ 0xEF then some 3
  else if 0xF0 ≤ lead && lead ≤ 0xF4 then some 4
  else none

-- The second bytes that give neither an overlong form, nor a surrogate, nor a number beyond
-- the last character.
def isSecond (lead second : UInt8) : Bool :=
  if lead = 0xE0 then 0xA0 ≤ second && second ≤ 0xBF
  else if lead = 0xED then 0x80 ≤ second && second ≤ 0x9F
  else if lead = 0xF0 then 0x90 ≤ second && second ≤ 0xBF
  else if lead = 0xF4 then 0x80 ≤ second && second ≤ 0x8F
  else isTail second

/-- The character whose lead byte carries `lead` and whose further bytes are `tails`. -/
def assemble (lead : Nat) (tails : List UInt8) : Char :=
  .ofNat (tails.foldl (fun n b => n * 64 + b.toNat % 64) lead)

def decodeAt : Nat → List UInt8 → Except Fault (List Char)
  | _, [] => .ok []
  | index, lead :: rest =>
    match width? lead with
    | none => .error ⟨index, some 1⟩
    | some 1 => return .ofNat lead.toNat :: (← decodeAt (index + 1) rest)
    | some 2 =>
      match rest with
      | [] => .error ⟨index, none⟩
      | b :: rest =>
        if isTail b then
          return assemble (lead.toNat % 32) [b] :: (← decodeAt (index + 2) rest)
        else .error ⟨index, some 1⟩
    | some 3 =>
      match rest with
      | [] => .error ⟨index, none⟩
      | b :: rest =>
        if isSecond lead b then
          match rest with
          | [] => .error ⟨index, none⟩
          | c :: rest =>
            if isTail c then
              return assemble (lead.toNat % 16) [b, c] :: (← decodeAt (index + 3) rest)
            else .error ⟨index, some 2⟩
        else .error ⟨index, some 1⟩
    | some _ =>
      match rest with
      | [] => .error ⟨index, none⟩
      | b :: rest =>
        if isSecond lead b then
          match rest with
          | [] => .error ⟨index, none⟩
          | c :: rest =>
            if isTail c then
              match rest with
              | [] => .error ⟨index, none⟩
              | d :: rest =>
                if isTail d then
                  return assemble (lead.toNat % 8) [b, c, d] :: (← decodeAt (index + 4) rest)
                else .error ⟨index, some 3⟩
            else .error ⟨index, some 2⟩
        else .error ⟨index, some 1⟩

def decode (bytes : List UInt8) : Except Fault (List Char) :=
  decodeAt 0 bytes

def size (text : List Char) : Nat :=
  text.foldr (fun c n => c.utf8Size + n) 0

def encode (text : String) : List UInt8 :=
  text.toByteArray.data.toList

end VulkanBindings.Text.Utf8
