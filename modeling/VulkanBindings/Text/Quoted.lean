import VulkanBindings.Text.Quoted.Table

/-! A text between quotes, with the characters that would not show written as escapes. -/

set_option autoImplicit false

namespace VulkanBindings.Text.Quoted

/-- Whether a character is shown by its number: controls, and what `numberedRanges` lists. -/
def isNumbered (c : Char) : Bool :=
  let n := c.toNat
  if n < 0x7F then n < 0x20 else numberedRanges.any fun r => r.1 ≤ n && n ≤ r.2

def escape (c : Char) : List Char :=
  if c = '\x00' then ['\\', '0']
  else if c = '\t' then ['\\', 't']
  else if c = '\r' then ['\\', 'r']
  else if c = '\n' then ['\\', 'n']
  else if c = '"' || c = '\\' then ['\\', c]
  else if isNumbered c then
    ['\\', 'u', '\x7b'] ++ Nat.toDigits 16 c.toNat ++ ['\x7d']
  else [c]

def quote (text : String) : String :=
  .ofList ('"' :: (text.toList.flatMap escape ++ ['"']))

def quote? : Option String → String
  | none => "None"
  | some text => "Some(" ++ quote text ++ ")"

end VulkanBindings.Text.Quoted
