/-! The text of a YAML stream on its way to tokens: the characters that are left, and where the
first of them stands. -/

set_option autoImplicit false

namespace VulkanBindings.Yaml

def isAdmitted (c : Char) : Bool :=
  let n := c.toNat
  n == 0x09 || n == 0x0A || n == 0x0D || (0x20 ≤ n && n ≤ 0x7E) || n == 0x85 ||
    (0xA0 ≤ n && n ≤ 0xFFFD) || 0x10000 ≤ n

def isBreak (c : Char) : Bool := c == '\n' || c == '\u2028' || c == '\u2029'

def isSpace (c : Char) : Bool := c == ' ' || c == '\t'

/-- The characters of anchors, of tag handles and of the names of directives. -/
def isWordChar (c : Char) : Bool := c.isAlphanum || c == '_' || c == '-'

-- A text in which a carriage return, alone or before a line feed, and the character NEXT LINE
-- are line feeds.
def unifyBreaks : List Char → List Char
  | [] => []
  | '\r' :: '\n' :: rest => '\n' :: unifyBreaks rest
  | c :: rest => (if c == '\r' || c == '\u0085' then '\n' else c) :: unifyBreaks rest

structure Source where
  rest : List Char
  index : Nat := 0
  line : Nat := 0
  column : Nat := 0
  deriving DecidableEq, Repr

namespace Source

def next (s : Source) : Source :=
  match s.rest with
  | [] => s
  | c :: rest =>
    if isBreak c then ⟨rest, s.index + 1, s.line + 1, 0⟩
    else ⟨rest, s.index + 1, s.line, s.column + 1⟩

def skip (n : Nat) (s : Source) : Source := n.repeat next s

-- The source of a text, where all its characters are admitted. A byte order mark at its start
-- takes up a column.
def ofText? (text : String) : Option Source :=
  if text.toList.all isAdmitted then
    let s : Source := { rest := unifyBreaks text.toList }
    some (if s.rest.head? = some '\uFEFF' then s.next else s)
  else none

def span (p : Char → Bool) (s : Source) : List Char × Source :=
  let run := s.rest.takeWhile p
  (run, s.skip run.length)

/-- No word goes on `n` characters from here: there is a space, a break or the end. -/
def endsWord (n : Nat) (s : Source) : Bool :=
  s.rest[n]?.all fun c => isSpace c || isBreak c

def atLineEnd (s : Source) : Bool := s.rest.head?.all isBreak

/-- Three characters at the start of a line that begin or end a document. -/
def atMark (mark : Char) (s : Source) : Bool :=
  s.column == 0 && s.rest.take 3 == [mark, mark, mark] && s.endsWord 3

def atDocumentMark (s : Source) : Bool := s.atMark '-' || s.atMark '.'

-- Reads the spaces and the comment at the end of a line, and its break; there may be nothing
-- else.
def finishLine? (s : Source) : Option Source :=
  let s := (s.span isSpace).2
  let s := if s.rest.head? = some '#' then (s.span (!isBreak ·)).2 else s
  if s.atLineEnd then some s.next else none

end Source

end VulkanBindings.Yaml
