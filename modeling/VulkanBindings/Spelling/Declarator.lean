import VulkanBindings.Spelling.Basic
import VulkanBindings.Text.DecimalDigit

/-! What a declaration says around a type and a name: stars, and sizes in brackets. -/

set_option autoImplicit false

namespace VulkanBindings.Declarator

def before? (c : Char) (text : List Char) : Option (List Char) :=
  if text.contains c then some (text.takeWhile (· ≠ c)) else none

/-- The first size in brackets that `accepts` says is one. -/
def size? (accepts : List Char → Bool) : List Char → Option (List Char)
  | [] => none
  | c :: rest =>
    match (if c = '[' then before? ']' rest else none).filter accepts with
    | some size => some size
    | none => size? accepts rest

def isNumber (size : List Char) : Bool :=
  !size.isEmpty && size.all Text.isDecimalDigit

def untaggedAfter : Nat → List Char → List Char
  | _, [] => []
  | skip + 1, _ :: rest => untaggedAfter skip rest
  | 0, c :: rest =>
    match if c = '<' then before? '>' rest else none with
    | some tag => untaggedAfter (tag.length + 1) rest
    | none => c :: untaggedAfter 0 rest

def untagged (text : List Char) : List Char := untaggedAfter 0 text

/-- The size of an array: the first number in brackets, or else the first text in brackets. -/
def arraySize? (raw : List Char) : Option (List Char) :=
  ((size? isNumber raw).or (size? (!·.isEmpty) raw)).map untagged

/-- How many lists a length names. Neither a text's end nor a single element is a list. -/
def lengths (len : Option String) : Nat :=
  match len with
  | none => 0
  | some len =>
    (((Text.split ',' len).map Text.trim).filter fun l => l ≠ "null-terminated" && l ≠ "1").length

/-- The layers around a declared type, the innermost first. -/
structure Layers where
  pointers : Nat
  slices : Nat
  size : Option String
  deriving DecidableEq, Repr

-- The layers that stars, brackets and lengths make. Where a `void*` is pointed to, the type
-- itself takes one star, from the pointers or else from the lists.
def layers (isVoidPointer : Bool) (len : Option String) (raw : String) : Layers :=
  let text := raw.toList
  let slices : Int := lengths len + (if text.contains '[' then 1 else 0)
  let pointers : Int := (text.count '*' : Int) - slices
  let (pointers, slices) :=
    if isVoidPointer then
      if pointers > 0 then (pointers - 1, slices) else (pointers, slices - 1)
    else (pointers, slices)
  let size := if slices > 0 then (arraySize? text).map String.ofList else none
  ⟨pointers.toNat, (if size.isSome then slices - 1 else slices).toNat, size⟩

def wrap (layer : Spelling → Spelling) : Nat → Spelling → Spelling
  | 0, s => s
  | n + 1, s => wrap layer n (layer s)

def Layers.apply (l : Layers) (base : Spelling) : Spelling :=
  let s := wrap .slice l.slices (wrap .pointer l.pointers base)
  match l.size with
  | some size => .array s size
  | none => s

-- The type that a declaration is about: without a name it is a number, and stars make `void`
-- a `void*`.
def baseName (typeName raw : String) : String :=
  let name := if typeName.isEmpty then "uint32_t" else typeName
  if name = "void" && raw.toList.contains '*' then "void*" else name

end VulkanBindings.Declarator
