import VulkanBindings.Yaml.Token

/-! From the text of a stream to its tokens. The block structure, which is written with
indentation alone, becomes tokens too: a block begins where a dash or a key stands further right
than before, and ends before what stands further left. That a scalar is a key is seen only at
the colon after it; so the places where a key may begin are kept, and its token is put there
later. -/

set_option autoImplicit false

namespace VulkanBindings.Yaml

structure KeyPlace where
  required : Bool
  before : Nat
  index : Nat
  line : Nat
  column : Nat
  deriving DecidableEq, Repr

structure Scanner where
  source : Source
  tokens : List Token := []
  count : Nat := 0
  indents : List Nat := []
  keyAllowed : Bool := true
  /-- Where the last key may have begun, inside the innermost brackets. -/
  keyPlace : Option KeyPlace := none
  outerPlaces : List (Option KeyPlace) := []

namespace Scanner

def inBrackets (s : Scanner) : Bool := !s.outerPlaces.isEmpty

def margin (s : Scanner) : Nat :=
  match s.indents with
  | [] => 0
  | column :: _ => column + 1

def push (token : Token) (s : Scanner) : Scanner :=
  { s with tokens := token :: s.tokens, count := s.count + 1 }

def insert (before : Nat) (token : Token) (s : Scanner) : Scanner :=
  let (later, earlier) := s.tokens.splitAt (s.count - before)
  { s with tokens := later ++ token :: earlier, count := s.count + 1 }

-- Opens a block, with its token after the first `before` ones, if there is none at this
-- column.
def openBlock (column before : Nat) (token : Token) (s : Scanner) : Scanner :=
  if !s.inBrackets && s.margin ≤ column then
    { s.insert before token with indents := column :: s.indents }
  else s

def closeBlocks (margin : Nat) (s : Scanner) : Scanner :=
  if s.inBrackets then s
  else
    let kept := s.indents.dropWhile (margin ≤ ·)
    let closed := s.indents.length - kept.length
    { s with
      tokens := List.replicate closed .blockEnd ++ s.tokens
      count := s.count + closed
      indents := kept }

/-- Forgets where a key may have begun; none if it had to. -/
def dropKey (s : Scanner) : Option Scanner :=
  if s.keyPlace.any (·.required) then none else some { s with keyPlace := none }

def saveKey (s : Scanner) : Option Scanner :=
  if s.keyAllowed then do
    let s ← s.dropKey
    return { s with
      keyPlace := some {
        required := !s.inBrackets && s.indents.head? == some s.source.column
        before := s.count
        index := s.source.index
        line := s.source.line
        column := s.source.column } }
  else some s

/-- A key is written on one line, in at most 1024 characters. -/
def KeyPlace.isStale (s : Source) (k : KeyPlace) : Bool :=
  k.line < s.line || k.index + 1024 < s.index

def dropStale (s : Scanner) : Option Scanner :=
  let drop (k : Option KeyPlace) : Option (Option KeyPlace) :=
    match k with
    | none => some none
    | some k =>
      if KeyPlace.isStale s.source k then if k.required then none else some none
      else some (some k)
  do
    return { s with
      keyPlace := ← drop s.keyPlace
      outerPlaces := ← s.outerPlaces.mapM drop }

/-- Skips spaces, comments and breaks. A tab is no space where a key may begin in a block. -/
def skipBlanks : Nat → Scanner → Scanner
  | 0, s => s
  | n + 1, s =>
    match s.source.rest with
    | [] => s
    | c :: _ =>
      if c == ' ' || (c == '\t' && (s.inBrackets || !s.keyAllowed)) then
        skipBlanks n { s with source := s.source.next }
      else if c == '#' then
        skipBlanks n { s with source := (s.source.span (!isBreak ·)).2 }
      else if isBreak c then
        skipBlanks n { s with source := s.source.next, keyAllowed := s.keyAllowed || !s.inBrackets }
      else s

def take (width : Nat) (token : Token) (s : Scanner) : Scanner :=
  { s.push token with source := s.source.skip width }

def add (s : Scanner) : Token × Source → Scanner
  | (token, source) => { s.push token with source }

/-- Ends all blocks, and what may have been a key; no key begins after it on this line. -/
def endBlocks (s : Scanner) : Option Scanner := do
  let s ← (s.closeBlocks 0).dropKey
  return { s with keyAllowed := false }

def directive (s : Scanner) : Option Scanner := do
  let s ← s.endBlocks
  s.add <$> Token.directive? s.source.next

def documentMark (token : Token) (s : Scanner) : Option Scanner :=
  (take 3 token) <$> s.endBlocks

def openBracket (token : Token) (s : Scanner) : Option Scanner := do
  let s ← s.saveKey
  return take 1 token { s with
    keyAllowed := true, keyPlace := none, outerPlaces := s.keyPlace :: s.outerPlaces }

def closeBracket (token : Token) (s : Scanner) : Option Scanner := do
  let s ← s.dropKey
  let s := match s.outerPlaces with
    | [] => s
    | k :: outer => { s with keyPlace := k, outerPlaces := outer }
  return take 1 token { s with keyAllowed := false }

def comma (s : Scanner) : Option Scanner := do
  let s ← s.dropKey
  return take 1 .comma { s with keyAllowed := true }

/-- Opens the block that the indicator at this column belongs to, where one may stand. -/
def indicated (token : Token) (s : Scanner) : Option Scanner :=
  if s.inBrackets then some s
  else if s.keyAllowed then some (s.openBlock s.source.column s.count token)
  else none

def dash (s : Scanner) : Option Scanner := do
  let s ← (← s.indicated .blockSequence).dropKey
  return take 1 .dash { s with keyAllowed := true }

def key (s : Scanner) : Option Scanner := do
  let s ← (← s.indicated .blockMapping).dropKey
  return take 1 .key { s with keyAllowed := !s.inBrackets }

def value (s : Scanner) : Option Scanner := do
  match s.keyPlace with
  | some k =>
    let s := (s.insert k.before .key).openBlock k.column k.before .blockMapping
    return take 1 .value { s with keyPlace := none, keyAllowed := false }
  | none =>
    let s ← s.indicated .blockMapping
    return take 1 .value { s with keyAllowed := !s.inBrackets }

def leaf (read : Source → Option (Token × Source)) (s : Scanner) : Option Scanner := do
  let s ← s.saveKey
  ({ s with keyAllowed := false } : Scanner).add <$> read s.source

def quoted (q : Quotes) : Scanner → Option Scanner :=
  leaf fun source => do
    let (text, source) ← q.read source
    return (.scalar text false, source)

def plain (s : Scanner) : Option Scanner := do
  let s ← s.saveKey
  let (text, broken, source) ← Plain.read s.inBrackets s.margin s.source
  return { s.push (.scalar text true) with source, keyAllowed := broken }

def block (literal : Bool) (s : Scanner) : Option Scanner := do
  let s ← s.dropKey
  let (text, source) ← Block.read literal s.margin s.source.next
  return { s.push (.scalar text false) with source, keyAllowed := true }

def indicators : List Char := "-?:,[]\x7b\x7d#&*!|>'\"%@`".toList

/-- A dash, and outside of brackets a question mark or a colon, can begin a plain scalar. -/
def beginsPlain (s : Scanner) (c : Char) : Bool :=
  !(isSpace c || isBreak c || indicators.contains c) ||
    (c == '-' && !s.source.endsWord 1) ||
    (!s.inBrackets && (c == '?' || c == ':') && !s.source.endsWord 1)

def token (c : Char) (s : Scanner) : Option Scanner :=
  if s.source.column == 0 && c == '%' then s.directive
  else if s.source.atMark '-' then s.documentMark .documentStart
  else if s.source.atMark '.' then s.documentMark .documentEnd
  else if c == '-' && s.source.endsWord 1 then s.dash
  else if c == '?' && (s.inBrackets || s.source.endsWord 1) then s.key
  else if c == ':' && (s.inBrackets || s.source.endsWord 1) then s.value
  else match c with
    | '[' => s.openBracket .openSequence
    | '\x7b' => s.openBracket .openMapping
    | ']' => s.closeBracket .closeSequence
    | '\x7d' => s.closeBracket .closeMapping
    | ',' => s.comma
    | '*' => s.leaf fun source => (Token.name? source.next).map fun (n, r) => (.reference n, r)
    | '&' => s.leaf fun source => (Token.name? source.next).map fun (n, r) => (.anchor n, r)
    | '!' => s.leaf fun source => Token.tag? s.inBrackets source.next
    | '\'' => s.quoted .single
    | '"' => s.quoted .double
    | _ =>
      if c == '|' && !s.inBrackets then s.block true
      else if c == '>' && !s.inBrackets then s.block false
      else if s.beginsPlain c then s.plain
      else none

def tokensFrom : Nat → Scanner → Option (List Token)
  | 0, _ => none
  | n + 1, s => do
    let s ← (s.skipBlanks s.source.rest.length).dropStale
    let s := s.closeBlocks (s.source.column + 1)
    match s.source.rest with
    | [] => return (← s.endBlocks).tokens.reverse
    | c :: _ => tokensFrom n (← s.token c)

end Scanner

def tokens? (text : String) : Option (List Token) := do
  let source ← Source.ofText? text
  Scanner.tokensFrom (source.rest.length + 1) { source }

end VulkanBindings.Yaml
