import VulkanBindings.Text.Casing.Table

/-! Upper and lower case of a text by the full mappings: one character may become several, and
a capital sigma at the end of a word becomes the final form. -/

set_option autoImplicit false

namespace VulkanBindings.Text.Casing

def inRanges (ranges : List (Nat × Nat)) (c : Char) : Bool :=
  ranges.any fun r => r.1 ≤ c.toNat && c.toNat ≤ r.2

def isCased : Char → Bool := inRanges casedRanges

/-- Marks and signs that are passed over when a word's end is looked for. -/
def isIgnorable : Char → Bool := inRanges ignorableRanges

def Run.holds (run : Run) (n : Nat) : Bool :=
  run.first ≤ n && n ≤ run.last && (n - run.first) % run.step == 0

def mapped (runs : List Run) (expansions : List (Nat × List Nat)) (c : Char) : List Char :=
  let n := c.toNat
  match expansions.lookup n with
  | some ns => ns.map .ofNat
  | none =>
    match runs.find? (·.holds n) with
    | some run => [.ofNat (n + run.offset).toNat]
    | none => [c]

def upperChar (c : Char) : List Char :=
  if c.toNat < 0x80 then [c.toUpper] else mapped upperRuns upperExpansions c

def lowerChar (c : Char) : List Char :=
  if c.toNat < 0x80 then [c.toLower] else mapped lowerRuns lowerExpansions c

def meetsCased (text : List Char) : Bool :=
  match text.dropWhile isIgnorable with
  | c :: _ => isCased c
  | [] => false

/-- Lower case of the text after `before`, which is given from its last character on. -/
def lowerAfter : List Char → List Char → List Char
  | _, [] => []
  | before, c :: rest =>
    let low :=
      if c = 'Σ' then
        if meetsCased before && !meetsCased rest then ['ς'] else ['σ']
      else lowerChar c
    low ++ lowerAfter (c :: before) rest

def lower (text : List Char) : List Char :=
  lowerAfter [] text

def upper (text : List Char) : List Char :=
  text.flatMap upperChar

end VulkanBindings.Text.Casing
