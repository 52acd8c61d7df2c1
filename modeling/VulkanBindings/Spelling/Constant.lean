import VulkanBindings.Text.Blank
import VulkanBindings.Text.Number

/-! Constants of C as Go spells them, and their values. -/

set_option autoImplicit false

namespace VulkanBindings.Constant

def withoutEnding (endings : List String) (text : List Char) : List Char :=
  (endings.findSome? fun ending => Text.beforeEnd? ending.toList text).getD text

def afterHexMark? : List Char → Option (List Char)
  | '0' :: 'x' :: digits | '0' :: 'X' :: digits => some digits
  | _ => none

def withoutParentheses (text : List Char) : List Char :=
  match text with
  | '(' :: rest => (Text.beforeEnd? [')'] rest).getD text
  | _ => text

/-- The Go spelling of a constant's digits, given how many of the suffixes it had. -/
def complement (isLong isUnsigned : Bool) (text : List Char) : String :=
  match text with
  | '~' :: rest =>
    let rest := String.ofList rest
    if isLong then s!"^uint64({rest})"
    else if isUnsigned then s!"^uint32({rest})"
    else "^" ++ rest
  | _ => .ofList text

-- The Go spelling of a C constant: without suffixes and parentheses, and with complements in
-- the width that the suffixes give.
def goText (value : String) : String :=
  let text := value.toList
  let text := if (afterHexMark? text).isSome then text else withoutEnding ["F", "f"] text
  let text := withoutParentheses text
  let digits := withoutEnding ["ULL", "ull"] text
  let isLong := digits.length ≠ text.length
  let bare := withoutEnding ["U", "u"] digits
  complement isLong (bare.length ≠ digits.length) bare

/-- The word that values are computed in. -/
def valueWord : Text.Word := ⟨true, 128⟩

def magnitude? (text : List Char) : Option Int :=
  match afterHexMark? text with
  | some digits => valueWord.read? 16 digits
  | none => valueWord.read? 10 text

def value? (text : String) : Option Int :=
  match text.toList with
  | '-' :: rest => (magnitude? rest).map (- ·)
  | text => magnitude? text

/-- The value of a bit, none if the word does not have it. The topmost bit is the sign. -/
def bitValue? (position : Nat) : Option Int :=
  if position + 1 < valueWord.bits then some (Nat.pow 2 position : Int)
  else if position + 1 = valueWord.bits then some valueWord.least
  else none

end VulkanBindings.Constant
