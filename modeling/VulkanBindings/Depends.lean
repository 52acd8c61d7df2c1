import VulkanBindings.Text.Blank

/-! Dependency expressions: names joined by `+` (and) and `,` (or), which bind alike and are
applied from left to right, and groups in parentheses. Every text is read as an expression; where
a term is missing the expression does not hold. -/

set_option autoImplicit false

namespace VulkanBindings.Depends

inductive Operator where
  | both
  | either
  deriving DecidableEq, Repr

inductive Token where
  | name (text : String)
  | operator (op : Operator)
  | opening
  | closing
  deriving DecidableEq, Repr

def Token.ofChar? : Char → Option Token
  | '+' => some (.operator .both)
  | ',' => some (.operator .either)
  | '(' => some .opening
  | ')' => some .closing
  | _ => none

/-- The name that characters spell, none if there are no characters at all. -/
def nameToken (spelled : List Char) : List Token :=
  if spelled.isEmpty then [] else [.name (.ofList (Text.trimChars spelled))]

/-- The tokens of a text after the characters of a name, which are given in reverse. -/
def tokensAfter (spelled : List Char) : List Char → List Token
  | [] => nameToken spelled.reverse
  | c :: rest =>
    match Token.ofChar? c with
    | some token => nameToken spelled.reverse ++ token :: tokensAfter [] rest
    | none => tokensAfter (c :: spelled) rest

def tokens (text : String) : List Token :=
  tokensAfter [] text.toList

inductive Expr where
  | name (text : String)
  | absent
  | join (op : Operator) (left right : Expr)
  | group (inner : Expr)
  deriving DecidableEq, Repr

namespace Expr

def value (enabled : List String) : Expr → Bool
  | .name text => enabled.contains text
  | .absent => false
  | .join .both left right => left.value enabled && right.value enabled
  | .join .either left right => left.value enabled || right.value enabled
  | .group inner => inner.value enabled

def afterClosing : List Token → List Token
  | .closing :: rest => rest
  | tokens => tokens

mutual

/-- Reads one term. The first argument bounds the number of tokens. -/
def readTerm : Nat → List Token → Expr × List Token
  | n + 1, .opening :: rest =>
    let (first, rest) := readTerm n rest
    let (inner, rest) := readMore n first rest
    (.group inner, afterClosing rest)
  | _, .name text :: rest => (.name text, rest)
  | _, tokens => (.absent, tokens)
termination_by structural n => n

def readMore : Nat → Expr → List Token → Expr × List Token
  | n + 1, left, .operator op :: rest =>
    let (right, rest) := readTerm n rest
    readMore n (.join op left right) rest
  | _, left, tokens => (left, tokens)
termination_by structural n => n

end

def readSequence (n : Nat) (tokens : List Token) : Expr × List Token :=
  let (first, rest) := readTerm n tokens
  readMore n first rest

/-- The expression that a text begins with. What follows it is of no concern. -/
def ofText (text : String) : Expr :=
  let ts := tokens text
  (readSequence ts.length ts).1

end Expr

def satisfied (text : String) (enabled : List String) : Bool :=
  (Expr.ofText text).value enabled

end VulkanBindings.Depends
