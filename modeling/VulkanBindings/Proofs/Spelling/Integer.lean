import VulkanBindings.Proofs.Xml.Spelling
import VulkanBindings.Spelling.Constant

/-! Integers as they are written in the registry, and that they are read so. -/

set_option autoImplicit false

namespace VulkanBindings

namespace Text.Word

theorem holds_iff {w : Word} {n : Int} : w.holds n = true ↔ w.least ≤ n ∧ n ≤ w.greatest := by
  simp [holds]

theorem holds_int64 {n : Int} : holds ⟨true, 64⟩ n = true ↔ -2 ^ 63 ≤ n ∧ n ≤ 2 ^ 63 - 1 := by
  simp [holds_iff, least, greatest]

theorem holds_uint64 {n : Int} : holds ⟨false, 64⟩ n = true ↔ 0 ≤ n ∧ n ≤ 2 ^ 64 - 1 := by
  simp [holds_iff, least, greatest]

end Text.Word

namespace Constant

open Text (digits? integer? natural?)
open Xml.Reference (Numeral marks)

/-- What a natural number is written as: decimal digits, or hexadecimal ones behind their mark. -/
inductive IsNatural : List Char → Nat → Prop
  | decimal {text : List Char} {n : Nat} (number : Numeral 10 text n) : IsNatural text n
  | hexadecimal {mark : Char} {digits : List Char} {n : Nat} (isMark : mark = 'x' ∨ mark = 'X')
    (number : Numeral 16 digits n) : IsNatural ('0' :: mark :: digits) n

inductive IsInteger : List Char → Int → Prop
  | natural {text : List Char} {n : Nat} (magnitude : IsNatural text n) : IsInteger text n
  | negative {text : List Char} {n : Nat} (magnitude : IsNatural text n) : IsInteger ('-' :: text) (-n)

section Digits

variable {base n m : Nat} {text : List Char}

theorem numeral_unique (small : base ≤ 16) (number : Numeral base text n) (other : Numeral base text m) :
    n = m :=
  Option.some.inj ((number.digits?_eq small).symm.trans (other.digits?_eq small))

theorem numeral_ne_minus (small : base ≤ 16) (number : Numeral base text n) (rest : List Char) :
    text ≠ '-' :: rest := by
  rintro rfl
  have read := number.digits?_eq small
  simp [digits?, Text.digit?] at read

theorem not_numeral_marked {mark : Char} {digits : List Char} (isMark : mark = 'x' ∨ mark = 'X') :
    ¬Numeral 10 ('0' :: mark :: digits) n := by
  intro number
  have listed : mark ∈ marks := by
    obtain rfl | rfl := isMark <;> decide
  exact number.not_mem (by decide) listed (.tail _ (.head _))

theorem integer?_eq (small : base ≤ 16) (number : Numeral base text n) :
    integer? base text = some (n : Int) := by
  unfold integer?
  split
  · exact absurd rfl (numeral_ne_minus small number _)
  · rw [number.natural?_eq small]
    rfl

theorem holds_valueWord {n : Int} : valueWord.holds n = true ↔ -2 ^ 127 ≤ n ∧ n ≤ 2 ^ 127 - 1 := by
  simp [valueWord, Text.Word.holds_iff, Text.Word.least, Text.Word.greatest]

theorem read?_eq (small : base ≤ 16) (number : Numeral base text n) (fits : n < 2 ^ 127) :
    valueWord.read? base text = some (n : Int) := by
  have signed : valueWord.signed = true := rfl
  have holds : valueWord.holds n = true := by
    rw [holds_valueWord]
    omega
  rw [Text.Word.read?, if_pos signed, integer?_eq small number]
  exact Option.filter_eq_some_iff.2 ⟨rfl, holds⟩

end Digits

namespace IsNatural

variable {n m : Nat} {text : List Char}

theorem unique (written : IsNatural text n) (other : IsNatural text m) : n = m := by
  cases written with
  | decimal number =>
    cases other with
    | decimal number' => exact numeral_unique (by decide) number number'
    | hexadecimal isMark => exact absurd number (not_numeral_marked isMark)
  | hexadecimal isMark number =>
    cases other with
    | decimal number' => exact absurd number' (not_numeral_marked isMark)
    | hexadecimal _ number' => exact numeral_unique (by decide) number number'

theorem ne_minus (written : IsNatural text n) (rest : List Char) : text ≠ '-' :: rest := by
  cases written with
  | decimal number => exact numeral_ne_minus (by decide) number rest
  | hexadecimal => simp

theorem magnitude?_eq (written : IsNatural text n) (fits : n < 2 ^ 127) :
    magnitude? text = some (n : Int) := by
  cases written with
  | decimal number =>
    have unmarked : afterHexMark? text = none := by
      unfold afterHexMark?
      split
      · exact absurd number (not_numeral_marked (.inl rfl))
      · exact absurd number (not_numeral_marked (.inr rfl))
      · rfl
    rw [magnitude?, unmarked]
    exact read?_eq (by decide) number fits
  | hexadecimal isMark number =>
    obtain rfl | rfl := isMark
    · exact read?_eq (by decide) number fits
    · exact read?_eq (by decide) number fits

end IsNatural

theorem isNatural_toString (n : Nat) : IsNatural (toString n).toList n := by
  rw [Nat.toString_eq_repr, Nat.toList_repr]
  exact .decimal (Xml.Reference.numeral_toDigits n)

theorem isInteger_toString (n : Int) : IsInteger (toString n).toList n := by
  cases n with
  | ofNat n => exact .natural (isNatural_toString n)
  | negSucc n =>
    have text : (toString (Int.negSucc n)).toList = '-' :: (toString (n + 1)).toList := by
      change ("-" ++ toString (n + 1)).toList = _
      rw [String.toList_append]
      rfl
    rw [text]
    exact .negative (isNatural_toString (n + 1))

namespace IsInteger

variable {n m : Int}

theorem unique {text : List Char} (written : IsInteger text n) (other : IsInteger text m) : n = m := by
  cases written with
  | natural magnitude =>
    cases other with
    | natural magnitude' => rw [magnitude.unique magnitude']
    | negative => exact absurd rfl (magnitude.ne_minus _)
  | negative magnitude =>
    cases other with
    | natural magnitude' => exact absurd rfl (magnitude'.ne_minus _)
    | negative magnitude' => rw [magnitude.unique magnitude']

/-- An integer is read from what it is written as, if there is room for it. -/
theorem value?_eq {text : String} (written : IsInteger text.toList n) (fits : n.natAbs < 2 ^ 127) :
    value? text = some n := by
  unfold value?
  generalize text.toList = chars at written
  cases written with
  | natural magnitude =>
    split
    · exact absurd rfl (magnitude.ne_minus _)
    · exact magnitude.magnitude?_eq fits
  | negative magnitude =>
    rw [Int.natAbs_neg, Int.natAbs_natCast] at fits
    exact congrArg (Option.map (- ·)) (magnitude.magnitude?_eq fits)

end IsInteger

end Constant

end VulkanBindings
