import Mathlib.Data.List.Basic
import Mathlib.Data.Nat.Digits.Defs
import VulkanBindings.Proofs.Xml.Rendering

/-! One way to write elements down: no white space but a blank before each attribute, and a closing
tag for each element. What ends a value, ampersands and the white space at its ends are referred to
by their numbers. -/

set_option autoImplicit false

namespace VulkanBindings.Xml

open Text (isBlank)

def numbered (c : Char) : List Char := '&' :: '#' :: Nat.toDigits 10 c.toNat ++ [';']

/-- A value as it is written where `stop` ends it, after a visible character or at its start. -/
def escaped (stop : Char) (visible : Bool) : List Char → List Char
  | [] => []
  | c :: rest =>
    (if c = stop || c = '&' || isBlank c && (!visible || rest.all isBlank) then numbered c else [c]) ++
      escaped stop (visible || !isBlank c) rest

def writtenAttributes (attributes : List (String × String)) : List Char :=
  attributes.flatMap fun (name, value) =>
    ' ' :: name.toList ++ '=' :: '"' :: escaped '"' false value.toList ++ ['"']

mutual

def Piece.written : Piece → List Char
  | .text value => escaped '<' false value.toList
  | .element name attributes body =>
    '<' :: name.toList ++ writtenAttributes attributes ++ '>' :: writtenAll body ++
      '<' :: '/' :: name.toList ++ ['>']

def writtenAll : List Piece → List Char
  | [] => []
  | piece :: rest => piece.written ++ writtenAll rest

end

def present (fields : List (String × Option String)) : List (String × String) :=
  fields.filterMap fun (name, value) => value.map (name, ·)

def IsWord (name : String) : Prop := name ≠ "" ∧ ∀ c ∈ name.toList, 'a' ≤ c ∧ c ≤ 'z'

instance (name : String) : Decidable (IsWord name) :=
  @instDecidableAnd _ _ inferInstance (List.decidableBAll _ name.toList)

/-- An element without texts whose names, and those in it, are words. -/
inductive IsWorded : Piece → Prop
  | element {name : String} {attributes : List (String × String)} {body : List Piece}
    (word : IsWord name) (words : ∀ field ∈ attributes, IsWord field.1)
    (within : ∀ piece ∈ body, IsWorded piece) : IsWorded (.element name attributes body)

section Values

theorem spells_escaped (stop : Char) (visible : Bool) (value : List Char) :
    Spells stop value (escaped stop visible value) := by
  induction value generalizing visible with
  | nil => exact .nil
  | cons c rest ih =>
    rw [escaped]
    split
    · have names : Reference.Names c ('#' :: Nat.toDigits 10 c.toNat) :=
        .decimal (Reference.numeral_toDigits c.toNat)
      simpa [numbered] using Spells.reference names (ih (visible || !isBlank c))
    · next plain =>
      simp only [Bool.or_eq_true, decide_eq_true_eq, not_or] at plain
      exact .plain plain.1.2 plain.1.1 (ih _)

theorem numbered_trimmed (c : Char) : IsTrimmed (numbered c) :=
  ⟨by rintro _ ⟨⟩; rfl, by rw [numbered, List.getLast?_concat]; rintro _ ⟨⟩; rfl⟩

theorem escaped_ne_nil {stop : Char} {visible : Bool} {value : List Char} (filled : value ≠ []) :
    escaped stop visible value ≠ [] :=
  (spells_escaped stop visible value).ne_nil filled

theorem escaped_last (stop : Char) (visible : Bool) (value : List Char) :
    ∀ c ∈ (escaped stop visible value).getLast?, isBlank c = false := by
  induction value generalizing visible with
  | nil => nofun
  | cons c rest ih =>
    rw [escaped]
    by_cases last : rest = []
    · subst last
      split
      · simpa [escaped] using (numbered_trimmed c).last
      · next plain => simp_all [escaped]
    · rw [List.getLast?_append_of_ne_nil _ (escaped_ne_nil last)]
      exact ih _

theorem escaped_trimmed (stop : Char) (value : List Char) : IsTrimmed (escaped stop false value) := by
  refine ⟨?_, escaped_last stop false value⟩
  cases value with
  | nil => nofun
  | cons c rest =>
    rw [escaped]
    split
    · exact (numbered_trimmed c).first
    · next plain => simp_all

end Values

section Names

variable {name : String}

theorem IsWord.within (word : IsWord name) :
    ∀ c ∈ name.toList, 0x61 ≤ c.toNat ∧ c.toNat ≤ 0x7A := word.2

theorem IsWord.isName (word : IsWord name) : IsName name.toList := by
  have within := word.within
  cases chars : name.toList with
  | nil => exact absurd (String.toList_eq_nil_iff.1 chars) word.1
  | cons c rest =>
    rw [chars] at within
    have ⟨first, others⟩ := List.forall_mem_cons.1 within
    exact .mk ⟨(0x61, 0x7A), by decide, first⟩ fun d mem => ⟨(0x61, 0x7A), by decide, others d mem⟩

theorem IsWord.plain (word : IsWord name) : spaceMark ∉ name.toList := fun mem =>
  absurd (word.within _ mem) (by decide)

end Names

section Writing

variable {name : String} {attributes : List (String × String)}

theorem inTag_written (words : ∀ field ∈ attributes, IsWord field.1) :
    InTag False attributes (writtenAttributes attributes) := by
  induction attributes with
  | nil => exact .done (List.forall_mem_nil _)
  | cons field rest ih =>
    obtain ⟨word, words⟩ := List.forall_mem_cons.1 words
    have blank : Spaces [' '] ∧ Spaces [] := by decide
    have plain : field.1.toList.head? ≠ some spaceMark := fun head =>
      word.plain (List.mem_of_mem_head? head)
    have inTag : InTag False (field :: rest) _ :=
      .cons blank.1 word.isName (fun _ => plain) ⟨blank.2, blank.2⟩ (spells_escaped '"' false _)
        (escaped_trimmed '"' _) (ih words)
    simpa [writtenAttributes] using inTag

theorem words_present {fields : List (String × Option String)} (words : ∀ field ∈ fields, IsWord field.1) :
    ∀ field ∈ present fields, IsWord field.1 := by
  intro field mem
  obtain ⟨known, isField, found⟩ := List.mem_filterMap.1 mem
  obtain ⟨value, -, rfl⟩ := Option.map_eq_some_iff.1 found
  exact words known isField

theorem isTag_written (word : IsWord name) (words : ∀ field ∈ attributes, IsWord field.1) :
    IsTag False name attributes (writtenAttributes attributes) := by
  refine ⟨word.isName, inTag_written words, ?_⟩
  cases attributes with
  | nil => nofun
  | cons => rintro _ ⟨⟩; decide

theorem Writes.tagged {body rest : List Piece} {written more : List Char} (word : IsWord name)
    (words : ∀ field ∈ attributes, IsWord field.1) (inside : Writes False body written)
    (others : Writes False rest more) :
    Writes False (.element name attributes body :: rest)
      ('<' :: name.toList ++ writtenAttributes attributes ++ '>' :: written ++
        '<' :: '/' :: name.toList ++ '>' :: more) := by
  have blank : Spaces [] := List.forall_mem_nil _
  have writes : Writes False (.element name attributes body :: rest) _ :=
    .closed (isTag_written word words) blank inside (fun _ => word.plain) ⟨blank, blank⟩ others
  simpa using writes

theorem Writes.texted {value : String} {rest : List Piece} {spaces more : List Char}
    (filled : value ≠ "") (blank : Spaces spaces) (apart : ∀ next ∈ rest.head?, next.isText = false)
    (others : Writes False rest more) :
    Writes False (.text value :: rest) (escaped '<' false value.toList ++ spaces ++ more) :=
  .text filled (spells_escaped '<' false _) (escaped_trimmed '<' _) blank apart others

theorem IsWorded.writes {piece : Piece} (worded : IsWorded piece) {rest : List Piece}
    {more : List Char} (others : Writes False rest more) :
    Writes False (piece :: rest) (piece.written ++ more) := by
  induction worded generalizing rest more with
  | @element name attributes body word words within ih =>
    have inside : Writes False body (writtenAll body) := by
      clear within
      induction body with
      | nil => exact .nil
      | cons piece body further =>
        rw [writtenAll]
        exact ih piece List.mem_cons_self
          (further fun piece mem => ih piece (List.mem_cons_of_mem _ mem))
    simpa [Piece.written] using Writes.tagged word words inside others

theorem IsWorded.renders {root : Piece} (worded : IsWorded root) :
    Renders False root (.ofList root.written) :=
  ⟨[], [], root.written, .inl rfl, List.forall_mem_nil _, by simpa using worded.writes .nil, by simp⟩

end Writing

end VulkanBindings.Xml
