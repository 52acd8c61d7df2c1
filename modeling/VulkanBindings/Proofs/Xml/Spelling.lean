import Mathlib.Data.List.TakeWhile
import VulkanBindings.Proofs.Xml.References
import VulkanBindings.Xml.Scanner

/-! How a value is spelled in a document: its characters stand for themselves, or are referred to
by number or by name. What is read of the spelling is the value. -/

set_option autoImplicit false

namespace VulkanBindings.Xml

namespace Reference

def predefined : List (String × Char) :=
  [("amp", '&'), ("lt", '<'), ("gt", '>'), ("quot", '"'), ("apos", '\'')]

inductive Names (c : Char) : List Char → Prop
  | decimal {digits : List Char} (number : Numeral 10 digits c.toNat) : Names c ('#' :: digits)
  | hexadecimal {digits : List Char} (number : Numeral 16 digits c.toNat) :
    Names c ('#' :: 'x' :: digits)
  | predefined {name : String} (mem : (name, c) ∈ predefined) : Names c name.toList

section Names

variable {c : Char} {name : List Char}

theorem Names.refers (names : Names c name) : Refers c name := by
  cases names with
  | decimal number => exact .decimal number
  | hexadecimal number => exact .hexadecimal (.inl rfl) number
  | predefined mem =>
    have known : ∀ entry ∈ Reference.predefined, entry ∈ entities := by decide
    exact .named (known _ mem)

theorem Names.not_mem {mark : Char} (names : Names c name) (isMark : mark ∈ [';', '<', '"']) :
    mark ∉ name := by
  have isMark' : mark ∈ marks ∧ mark ∉ ['#', 'x'] ∧
      ∀ known ∈ Reference.predefined, mark ∉ known.1.toList := by
    simp only [List.mem_cons, List.not_mem_nil, or_false] at isMark
    obtain rfl | rfl | rfl := isMark <;> decide
  obtain ⟨digits, others, letters⟩ := isMark'
  cases names with
  | decimal number =>
    have := number.not_mem (by decide) digits
    simp_all
  | hexadecimal number =>
    have := number.not_mem (by decide) digits
    simp_all
  | predefined mem => exact letters _ mem

end Names

end Reference

/-- A value as it is written where `stop` ends it. An ampersand and the character that ends it are
always referred to. -/
inductive Spells (stop : Char) : List Char → List Char → Prop
  | nil : Spells stop [] []
  | plain {c : Char} {value written : List Char} (notMark : c ≠ '&') (notStop : c ≠ stop)
    (rest : Spells stop value written) : Spells stop (c :: value) (c :: written)
  | reference {c : Char} {name value written : List Char} (names : Reference.Names c name)
    (rest : Spells stop value written) : Spells stop (c :: value) ('&' :: name ++ ';' :: written)

namespace Reference

theorem encodes_of_spells {stop : Char} {value written : List Char} (spells : Spells stop value written) :
    Encodes value written := by
  induction spells with
  | nil => exact .nil
  | plain notMark _ _ ih => exact .plain notMark ih
  | reference names _ ih => exact .reference names.refers ih

theorem decode_spells {stop : Char} {value written : List Char} (spells : Spells stop value written) :
    decode written = value :=
  (encodes_of_spells spells).decode_eq

end Reference

section Spells

variable {stop : Char} {value written : List Char}

theorem Spells.not_mem (spells : Spells stop value written) (ends : stop = '<' ∨ stop = '"') :
    stop ∉ written := by
  have reference : stop ∈ [';', '<', '"'] ∧ stop ≠ '&' ∧ stop ≠ ';' := by
    obtain rfl | rfl := ends <;> decide
  obtain ⟨isMark, notAmpersand, notSemicolon⟩ := reference
  induction spells with
  | nil => exact List.not_mem_nil
  | plain _ notStop _ ih => simpa using ⟨notStop.symm, ih⟩
  | reference names _ ih => simpa using ⟨notAmpersand, names.not_mem isMark, notSemicolon, ih⟩

theorem Spells.ne_nil (spells : Spells stop value written) (filled : value ≠ []) : written ≠ [] := by
  cases spells with
  | nil => exact absurd rfl filled
  | plain => exact List.cons_ne_nil _ _
  | reference => simp

end Spells

section Trimming

open Text (isBlank trimEnd trimChars)

variable {text spaces : List Char}

theorem trimEnd_cons (c : Char) (text : List Char) :
    trimEnd (c :: text) = if (trimEnd text).isEmpty && isBlank c then [] else c :: trimEnd text := rfl

theorem trimEnd_append (blank : ∀ c ∈ spaces, isBlank c) : trimEnd (text ++ spaces) = trimEnd text := by
  induction text with
  | nil =>
    induction spaces with
    | nil => rfl
    | cons c spaces ih =>
      obtain ⟨here, later⟩ := List.forall_mem_cons.1 blank
      rw [List.nil_append, trimEnd_cons, show trimEnd spaces = [] from ih later, if_pos (by simp [here])]
      rfl
  | cons c text ih => rw [List.cons_append, trimEnd_cons, ih, trimEnd_cons]

theorem trimEnd_eq_self (visible : ∀ c ∈ text.getLast?, isBlank c = false) : trimEnd text = text := by
  induction text with
  | nil => rfl
  | cons c text ih =>
    rw [trimEnd_cons]
    cases text with
    | nil =>
      have last : isBlank c = false := visible c rfl
      exact if_neg (by simp [last])
    | cons d text =>
      rw [ih (by simpa [List.getLast?_cons_cons] using visible)]
      exact if_neg (by simp)

structure IsTrimmed (text : List Char) : Prop where
  first : ∀ c ∈ text.head?, isBlank c = false
  last : ∀ c ∈ text.getLast?, isBlank c = false

theorem IsTrimmed.trimChars_append (trimmed : IsTrimmed text) (blank : ∀ c ∈ spaces, isBlank c) :
    trimChars (text ++ spaces) = text := by
  unfold trimChars
  cases text with
  | nil =>
    have none : spaces.dropWhile isBlank = [] := by simpa [List.dropWhile_eq_nil_iff] using blank
    rw [List.nil_append, none]
    rfl
  | cons c text =>
    have visible : isBlank c = false := trimmed.first c rfl
    rw [List.cons_append, List.dropWhile_cons_of_neg (by simp [visible]), ← List.cons_append,
      trimEnd_append blank, trimEnd_eq_self trimmed.last]

theorem trimEnd_prefix (text : List Char) : trimEnd text <+: text := by
  induction text with
  | nil => exact List.prefix_rfl
  | cons c text ih =>
    rw [trimEnd_cons]
    split
    · exact List.nil_prefix
    · exact List.cons_prefix_cons.2 ⟨rfl, ih⟩

theorem visible_of_getLast?_trimEnd {text : List Char} :
    ∀ c ∈ (trimEnd text).getLast?, isBlank c = false := by
  induction text with
  | nil => exact nofun
  | cons c text ih =>
    rw [trimEnd_cons]
    split
    · exact nofun
    · next kept =>
      cases rest : trimEnd text with
      | nil =>
        rintro _ ⟨⟩
        simpa [rest] using kept
      | cons d rest' =>
        rw [rest] at ih
        rwa [List.getLast?_cons_cons]

theorem isTrimmed_trimChars (text : List Char) : IsTrimmed (trimChars text) where
  first c first := by
    obtain ⟨rest, whole⟩ := trimEnd_prefix (text.dropWhile isBlank)
    have head : (trimEnd (text.dropWhile isBlank)).head? = some c := first
    have same : (text.dropWhile isBlank).head? = some c := by
      rw [← whole, List.head?_append, head, Option.some_or]
    have visible := List.head?_dropWhile_not isBlank text
    rw [same] at visible
    exact visible
  last := visible_of_getLast?_trimEnd

theorem trimChars_trimChars (text : List Char) : trimChars (trimChars text) = trimChars text := by
  have trimmed := (isTrimmed_trimChars text).trimChars_append (List.forall_mem_nil _)
  rwa [List.append_nil] at trimmed

theorem trim_trim (text : String) : Text.trim (Text.trim text) = Text.trim text := by
  unfold Text.trim
  rw [String.toList_ofList, trimChars_trimChars]

/-- What is read of the spelling of a value, and of blanks after it. -/
theorem meant_append {stop : Char} {value written : List Char} (spells : Spells stop value written)
    (trimmed : IsTrimmed written) (blank : ∀ c ∈ spaces, isBlank c) :
    Scanner.meant (written ++ spaces) = .ofList value := by
  rw [Scanner.meant, trimmed.trimChars_append blank, Reference.decode_spells spells]

theorem meant_eq {stop : Char} {value written : List Char} (spells : Spells stop value written)
    (trimmed : IsTrimmed written) : Scanner.meant written = .ofList value := by
  have meant := meant_append spells trimmed (List.forall_mem_nil _)
  rwa [List.append_nil] at meant

end Trimming

end VulkanBindings.Xml
