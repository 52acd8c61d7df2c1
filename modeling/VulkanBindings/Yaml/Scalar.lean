import VulkanBindings.Text.Number
import VulkanBindings.Yaml.Source

/-! The five ways to write a scalar: plain, in single or double quotes, and as a literal or
folded block. Each reads a text from where it begins and answers with what is left. -/

set_option autoImplicit false

namespace VulkanBindings.Yaml

inductive Gap where
  | spaces (text : List Char)
  /-- Ends of lines; the first is none where a backslash hides it. -/
  | breaks (first : Option Char) (later : List Char)
  deriving DecidableEq, Repr

namespace Gap

-- What a gap adds to the text of a scalar: one line feed between words is a space, and of
-- more the first is dropped.
def fold : Gap → List Char
  | .spaces text => text
  | .breaks (some '\n') [] => [' ']
  | .breaks (some '\n') later => later
  | .breaks first later => first.toList ++ later

def isBroken : Gap → Bool
  | .spaces _ => false
  | .breaks .. => true

-- Reads the rest of a gap after its first break; the breaks are the answer. A tab may not
-- stand left of `margin`. The second argument bounds the number of characters.
def later (margin : Nat) : Nat → Source → Option (List Char × Source)
  | 0, s => some ([], s)
  | n + 1, s =>
    match s.rest with
    | [] => some ([], s)
    | c :: _ =>
      if c == '\t' && s.column < margin then none
      else if isSpace c then later margin n s.next
      else if isBreak c then do
        let (ends, s) ← later margin n s.next
        return (c :: ends, s)
      else some ([], s)

def read (margin : Nat) (s : Source) : Option (Gap × Source) :=
  let (run, after) := s.span isSpace
  match after.rest with
  | [] => some (.spaces run, after)
  | c :: rest =>
    if isBreak c then do
      let (ends, s) ← later margin rest.length after.next
      return (.breaks (some c) ends, s)
    else some (.spaces run, after)

end Gap

namespace Plain

def isFlowIndicator (c : Char) : Bool := ",[]\x7b\x7d".toList.contains c

-- Reads a word: up to a space, to the colon that follows a key, or in brackets to what
-- delimits an entry. There a colon right before a delimiter is wrong.
def word (flow : Bool) : Nat → Source → Option (List Char × Source)
  | 0, s => some ([], s)
  | n + 1, s =>
    match s.rest with
    | [] => some ([], s)
    | c :: rest =>
      if isSpace c || isBreak c then some ([], s)
      else if flow && c == ':' && rest.head?.any (fun d => d == '?' || isFlowIndicator d) then none
      else if (c == ':' && s.endsWord 1) || (flow && isFlowIndicator c) then some ([], s)
      else do
        let (text, s) ← word flow n s.next
        return (c :: text, s)

-- Reads on after `text` and a gap. Answers with the text, whether a line ended after it, and
-- what is left.
def words (flow : Bool) (margin : Nat) :
    Nat → List Char → Gap → Source → Option (List Char × Bool × Source)
  | 0, text, gap, s => some (text, gap.isBroken, s)
  | n + 1, text, gap, s => do
    if s.atDocumentMark || s.rest.head? = some '#' then return (text, gap.isBroken, s)
    let (run, after) ← word flow s.rest.length s
    if run.isEmpty then return (text, gap.isBroken, s)
    let text := text ++ gap.fold ++ run
    if !after.endsWord 0 || after.rest.isEmpty then return (text, false, after)
    let (gap, s) ← Gap.read margin after
    if !flow && s.column < margin then return (text, gap.isBroken, s)
    words flow margin n text gap s

/-- Reads a plain scalar whose lines do not begin left of `margin`. -/
def read (flow : Bool) (margin : Nat) (s : Source) : Option (List Char × Bool × Source) :=
  words flow margin s.rest.length [] (.spaces []) s

end Plain

namespace DoubleQuoted

def numbered? (n : Nat) (text : List Char) : Option (Char × Nat) := do
  let digits := text.take n
  if digits.length != n then none
  let number ← Text.digits? 16 digits
  if number.isValidChar then some (.ofNat number, n + 1) else none

def escape? : List Char → Option (Char × Nat)
  | [] => none
  | c :: rest =>
    match c with
    | '0' => some ('\x00', 1)
    | 'a' => some ('\x07', 1)
    | 'b' => some ('\x08', 1)
    | 't' | '\t' => some ('\t', 1)
    | 'n' => some ('\n', 1)
    | 'v' => some ('\x0B', 1)
    | 'f' => some ('\x0C', 1)
    | 'r' => some ('\r', 1)
    | 'e' => some ('\x1B', 1)
    | ' ' | '"' | '/' | '\\' => some (c, 1)
    | 'N' => some ('\u0085', 1)
    | '_' => some ('\u00A0', 1)
    | 'L' => some ('\u2028', 1)
    | 'P' => some ('\u2029', 1)
    | 'x' => numbered? 2 rest
    | 'u' => numbered? 4 rest
    | 'U' => numbered? 8 rest
    | _ => none

def word : Nat → Source → Option (List Char × Source)
  | 0, s => some ([], s)
  | n + 1, s =>
    match s.rest with
    | [] => some ([], s)
    | '\\' :: rest =>
      if rest.head?.any isBreak then some ([], s)
      else do
        let (c, width) ← escape? rest
        let (text, s) ← word n (s.skip (width + 1))
        return (c :: text, s)
    | c :: _ =>
      if c == '"' || isSpace c || isBreak c then some ([], s)
      else do
        let (text, s) ← word n s.next
        return (c :: text, s)

def gap (s : Source) : Option (Gap × Source) :=
  match s.rest with
  | '\\' :: _ => do
    let (ends, s) ← Gap.later 0 s.rest.length (s.skip 2)
    return (.breaks none ends, s)
  | _ => Gap.read 0 s

end DoubleQuoted

namespace SingleQuoted

/-- Reads up to a space, a break or the closing quote; two quotes stand for one. -/
def word : Nat → Source → Option (List Char × Source)
  | 0, s => some ([], s)
  | n + 1, s =>
    match s.rest with
    | [] => some ([], s)
    | '\'' :: '\'' :: _ => do
      let (text, s) ← word n (s.skip 2)
      return ('\'' :: text, s)
    | c :: _ =>
      if c == '\'' || isSpace c || isBreak c then some ([], s)
      else do
        let (text, s) ← word n s.next
        return (c :: text, s)

end SingleQuoted

structure Quotes where
  quote : Char
  word : Nat → Source → Option (List Char × Source)
  gap : Source → Option (Gap × Source)

namespace Quotes

def single : Quotes := ⟨'\'', SingleQuoted.word, Gap.read 0⟩

def double : Quotes := ⟨'"', DoubleQuoted.word, DoubleQuoted.gap⟩

def words (q : Quotes) : Nat → List Char → Source → Option (List Char × Source)
  | 0, _, _ => none
  | n + 1, text, s => do
    if s.atDocumentMark || s.rest.isEmpty then none
    let (run, s) ← q.word s.rest.length s
    if s.rest.head? = some q.quote then return (text ++ run, s.next)
    let (gap, s) ← q.gap s
    words q n (text ++ run ++ gap.fold) s

def read (q : Quotes) (s : Source) : Option (List Char × Source) :=
  words q s.rest.length [] s.next

end Quotes

namespace Block

inductive Chomping where
  | strip
  | clip
  | keep
  deriving DecidableEq, Repr

structure Header where
  chomping : Chomping := .clip
  /-- By how much the block is indented, where that is not seen from its first line. -/
  indentation : Option Nat := none
  deriving DecidableEq, Repr

/-- Reads one character of a header, none if it is none or says again what is known. -/
def Header.with? (h : Header) (c : Char) : Option Header :=
  if h.chomping = .clip && c == '+' then some { h with chomping := .keep }
  else if h.chomping = .clip && c == '-' then some { h with chomping := .strip }
  else if h.indentation.isNone && c.isDigit then
    some { h with indentation := some (c.toNat - '0'.toNat) }
  else none

def header (s : Source) : Option (Header × Source) :=
  let rec go : Nat → Header → Source → Header × Source
    | 0, h, s => (h, s)
    | n + 1, h, s =>
      match s.rest.head?.bind h.with? with
      | some h => go n h s.next
      | none => (h, s)
  let (h, s) := go 2 {} s
  if h.indentation = some 0 then none else s.finishLine?.map (h, ·)

-- Reads empty lines and the spaces before the next line that is not empty, at most up to
-- `indent` where that is known. Answers with the breaks, and how far the spaces went. A tab may
-- not stand where a space is expected.
def emptyLines (indent : Option Nat) : Nat → Nat → Source → Option (List Char × Nat × Source)
  | 0, deepest, s => some ([], deepest, s)
  | n + 1, deepest, s =>
    match s.rest with
    | [] => some ([], deepest, s)
    | c :: _ =>
      if isSpace c && indent.all (s.column < ·) then
        if c == '\t' then none else emptyLines indent n (max deepest (s.column + 1)) s.next
      else if isBreak c then do
        let (ends, deepest, s) ← emptyLines indent n deepest s.next
        return (c :: ends, deepest, s)
      else some ([], deepest, s)

-- What joins two lines of a block: in a folded block a line feed is a space if one stands
-- alone, and is dropped before others, unless a line at either side begins with a space.
def joint (literal spaced : Bool) (first : Option Char) (later : List Char) : List Char :=
  if !literal && first == some '\n' && !spaced then if later.isEmpty then [' '] else later
  else first.toList ++ later

-- Reads the lines that begin at column `indent`, after `text`, whose last line ended with
-- `first` and was followed by `later`; `spaced` if it began with a space.
def lines (literal : Bool) (chomping : Chomping) (indent : Nat) :
    Nat → List Char → Option Char → List Char → Bool → Source → Option (List Char × Source)
  | 0, text, _, _, _, s => some (text, s)
  | n + 1, text, first, later, spaced, s => do
    if s.column == indent && !s.rest.isEmpty then
      let begins := s.rest.head?.any isSpace
      let (line, after) := s.span (!isBreak ·)
      let text := text ++ joint literal (spaced || begins) first later ++ line
      let (ends, _, s) ← emptyLines (some indent) after.rest.length 0 after.next
      lines literal chomping indent n text after.rest.head? ends begins s
    else
      let ending := match chomping with
        | .strip => []
        | .clip => first.toList
        | .keep => first.toList ++ later
      return (text ++ ending, s)

/-- Reads a block after its indicator, in a collection whose entries begin left of `margin`. -/
def read (literal : Bool) (margin : Nat) (s : Source) : Option (List Char × Source) := do
  let (h, s) ← header s
  let indent := h.indentation.map (margin - 1 + ·)
  let (later, deepest, s) ← emptyLines indent s.rest.length 0 s
  let indent := indent.getD (max deepest (max margin 1))
  lines literal h.chomping indent (s.rest.length + 1) [] none later false s

end Block

end VulkanBindings.Yaml
