import VulkanBindings.Proofs.Xml.Spelling
import VulkanBindings.Xml.Node

/-! Every way of writing elements down as a document: where white space may stand, how a childless
element may end, and which characters have to be referred to. -/

set_option autoImplicit false

namespace VulkanBindings.Xml

inductive Piece where
  | text (value : String)
  | element (name : String) (attributes : List (String × String)) (body : List Piece)

namespace Piece

def isText : Piece → Bool
  | .text _ => true
  | .element .. => false

end Piece

def attributeEntries (attributes : List (String × String)) : List (String × Tree) :=
  attributes.map fun (name, value) => (name, .text value)

mutual

def Piece.entry : Piece → String × Tree
  | .text value => (textName, .text value)
  | .element name attributes body => (name, .element (attributeEntries attributes ++ entriesOf body))

def entriesOf : List Piece → List (String × Tree)
  | [] => []
  | piece :: rest => piece.entry :: entriesOf rest

end

/-- White space that may stand between the parts of a document. -/
def IsSpace (c : Char) : Prop := c ∈ [' ', '\t', '\n', '\x0c', '\r']

instance (c : Char) : Decidable (IsSpace c) := inferInstanceAs (Decidable (c ∈ _))

def Spaces (text : List Char) : Prop := ∀ c ∈ text, IsSpace c

instance (text : List Char) : Decidable (Spaces text) := List.decidableBAll _ text

/-- The first and last characters of the ranges that a name may begin with. -/
def nameStarts : List (Nat × Nat) :=
  [(0x3A, 0x3A), (0x41, 0x5A), (0x5F, 0x5F), (0x61, 0x7A), (0xC0, 0xD6), (0xD8, 0xF6),
    (0xF8, 0x2FF), (0x370, 0x37D), (0x37F, 0x1FFF), (0x200C, 0x200D), (0x2070, 0x218F),
    (0x2C00, 0x2FEF), (0x3001, 0xD7FF), (0xF900, 0xFDCF), (0xFDF0, 0xFFFD), (0x10000, 0xEFFFF)]

def nameParts : List (Nat × Nat) :=
  nameStarts ++ [(0x2D, 0x2E), (0x30, 0x39), (0xB7, 0xB7), (0x300, 0x36F), (0x203F, 0x2040)]

def IsWithin (ranges : List (Nat × Nat)) (c : Char) : Prop :=
  ∃ range ∈ ranges, range.1 ≤ c.toNat ∧ c.toNat ≤ range.2

instance (ranges : List (Nat × Nat)) (c : Char) : Decidable (IsWithin ranges c) :=
  inferInstanceAs (Decidable (∃ range ∈ ranges, _))

inductive IsName : List Char → Prop
  | mk {c : Char} {rest : List Char} (start : IsWithin nameStarts c)
    (parts : ∀ d ∈ rest, IsWithin nameParts d) : IsName (c :: rest)

/-- The one character of names that is white space too. -/
def spaceMark : Char := '\u1680'

/-- What stands in a tag between its name and its end. Unless `marked`, no name of an attribute
begins with a space mark. -/
inductive InTag (marked : Prop) : List (String × String) → List Char → Prop
  | done {spaces : List Char} (blank : Spaces spaces) : InTag marked [] spaces
  | cons {name value : String} {rest : List (String × String)}
    {before left right written more : List Char} (separate : Spaces before)
    (isName : IsName name.toList) (plain : ¬marked → name.toList.head? ≠ some spaceMark)
    (equals : Spaces left ∧ Spaces right) (spells : Spells '"' value.toList written)
    (trimmed : IsTrimmed written) (others : InTag marked rest more) :
    InTag marked ((name, value) :: rest)
      (before ++ name.toList ++ left ++ '=' :: right ++ '"' :: written ++ '"' :: more)

/-- A tag without its brackets: white space stands between its name and whatever follows it. -/
structure IsTag (marked : Prop) (name : String) (attributes : List (String × String))
    (inner : List Char) : Prop where
  isName : IsName name.toList
  inTag : InTag marked attributes inner
  apart : ∀ c ∈ inner.head?, IsSpace c

/-- What stands between tags: pieces, each with white space after it. Unless `marked`, there is no
space mark in a closing tag. -/
inductive Writes (marked : Prop) : List Piece → List Char → Prop
  | nil : Writes marked [] []
  | text {value : String} {rest : List Piece} {written spaces more : List Char} (filled : value ≠ "")
    (spells : Spells '<' value.toList written) (trimmed : IsTrimmed written) (blank : Spaces spaces)
    (apart : ∀ next ∈ rest.head?, next.isText = false) (others : Writes marked rest more) :
    Writes marked (.text value :: rest) (written ++ spaces ++ more)
  | selfClosed {name : String} {attributes : List (String × String)} {rest : List Piece}
    {inner spaces more : List Char} (tag : IsTag marked name attributes inner)
    (blank : Spaces spaces) (others : Writes marked rest more) :
    Writes marked (.element name attributes [] :: rest)
      ('<' :: name.toList ++ inner ++ '/' :: '>' :: spaces ++ more)
  | closed {name : String} {attributes : List (String × String)} {body rest : List Piece}
    {inner lead written closing spaces more : List Char} (tag : IsTag marked name attributes inner)
    (blank : Spaces lead) (within : Writes marked body written)
    (plain : ¬marked → spaceMark ∉ name.toList) (blanks : Spaces closing ∧ Spaces spaces)
    (others : Writes marked rest more) :
    Writes marked (.element name attributes body :: rest)
      ('<' :: name.toList ++ inner ++ '>' :: lead ++ written ++
        '<' :: '/' :: name.toList ++ closing ++ '>' :: spaces ++ more)

/-- A document of one root, after the mark that says it is UTF-8, or without that. -/
def Renders (marked : Prop) (root : Piece) (document : String) : Prop :=
  ∃ mark lead written, (mark = [] ∨ mark = ['\uFEFF']) ∧ Spaces lead ∧
    Writes marked [root] written ∧ document.toList = mark ++ lead ++ written

section Characters

variable {c : Char} {name : List Char}

theorem IsSpace.isBlank (space : IsSpace c) : Text.isBlank c := by
  simp only [IsSpace, List.mem_cons, List.not_mem_nil, or_false] at space
  obtain rfl | rfl | rfl | rfl | rfl := space <;> decide

theorem IsName.parts (isName : IsName name) : ∀ c ∈ name, IsWithin nameParts c := by
  obtain ⟨⟨range, mem, bounds⟩, parts⟩ := isName
  exact List.forall_mem_cons.2 ⟨⟨range, List.mem_append_left _ mem, bounds⟩, parts⟩

/-- Of the characters of names, one alone is white space. -/
theorem eq_spaceMark (part : IsWithin nameParts c) (blank : Text.isBlank c) : c = spaceMark := by
  simp only [Text.isBlank, Bool.or_eq_true, Bool.and_eq_true, decide_eq_true_eq, beq_iff_eq] at blank
  simp only [IsWithin, nameParts, nameStarts, List.cons_append, List.nil_append, List.mem_cons,
    List.not_mem_nil, or_false, exists_eq_or_imp, ↓existsAndEq, true_and] at part
  refine Char.toNat_inj.1 (?_ : c.toNat = 0x1680)
  omega

theorem visible_of_part (part : IsWithin nameParts c) (plain : c ≠ spaceMark) :
    Text.isBlank c = false :=
  Bool.eq_false_iff.2 fun blank => plain (eq_spaceMark part blank)

-- The characters by which a reader tells the parts of a tag apart.
theorem ne_of_part (part : IsWithin nameParts c) :
    c ≠ '=' ∧ c ≠ '>' ∧ c ≠ '/' ∧ c ≠ '!' ∧ c ≠ '?' ∧ ¬IsSpace c := by
  simp only [IsWithin, nameParts, nameStarts, List.cons_append, List.nil_append, List.mem_cons,
    List.not_mem_nil, or_false, exists_eq_or_imp, ↓existsAndEq, true_and] at part
  have other {d : Char} (apart : c.toNat ≠ d.toNat) : c ≠ d := fun same => apart (congrArg _ same)
  have space : ¬IsSpace c := by
    simp only [IsSpace, List.mem_cons, List.not_mem_nil, or_false, not_or]
    refine ⟨other ?_, other ?_, other ?_, other ?_, other ?_⟩ <;> simp <;> omega
  refine ⟨other ?_, other ?_, other ?_, other ?_, other ?_, space⟩ <;> simp <;> omega

end Characters

end VulkanBindings.Xml
