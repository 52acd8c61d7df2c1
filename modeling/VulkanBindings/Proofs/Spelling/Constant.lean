import VulkanBindings.Proofs.Spelling.Integer

/-! Integer constants of C, what they are worth, and what their Go spellings are worth. A constant
has the first of the types in its list that holds it, and arithmetic in an unsigned type wraps
around. Constants of Go have no width of their own: it is the conversion to an unsigned word that
gives a complement its width. -/

set_option autoImplicit false

namespace VulkanBindings.Constant

open Text (digits?)
open Xml.Reference (IsDigit Numeral)

section Grammar

/-- How a natural number is written in C and in Go: in decimal digits with no zero in front, or in
hexadecimal ones behind their mark. -/
inductive Writes : (isHexadecimal : Bool) → List Char → Nat → Prop
  | decimal {text : List Char} {n : Nat} (number : Numeral 10 text n)
    (leading : text = ['0'] ∨ text.head? ≠ some '0') : Writes false text n
  | hexadecimal {mark : Char} {digits : List Char} {n : Nat} (isMark : mark = 'x' ∨ mark = 'X')
    (number : Numeral 16 digits n) : Writes true ('0' :: mark :: digits) n

inductive Suffix where
  | absent
  | unsigned (isUpper : Bool)
  | long (isUpper : Bool)
  deriving DecidableEq, Repr

def Suffix.text : Suffix → List Char
  | .absent => []
  | .unsigned isUpper => (if isUpper then "U" else "u").toList
  | .long isUpper => (if isUpper then "ULL" else "ull").toList

inductive Operator where
  | absent
  | complement
  | minus
  deriving DecidableEq, Repr

def Operator.text : Operator → List Char
  | .absent => []
  | .complement => ['~']
  | .minus => ['-']

/-- A number as it stands in C, with the suffix that asks for a type. -/
structure Literal where
  isHexadecimal : Bool
  digits : List Char
  value : Nat
  writes : Writes isHexadecimal digits value
  suffix : Suffix

/-- An integer constant of C. -/
structure Expression where
  isEnclosed : Bool
  operator : Operator
  literal : Literal

def Expression.inner (e : Expression) : List Char :=
  e.operator.text ++ e.literal.digits ++ e.literal.suffix.text

def Expression.text (e : Expression) : String :=
  .ofList (if e.isEnclosed then '(' :: e.inner ++ [')'] else e.inner)

end Grammar

section Values

/-- The types that C tries for a number. A decimal number without a suffix has a signed one. -/
def Suffix.types (isHexadecimal : Bool) : Suffix → List Text.Word
  | .absent =>
    if isHexadecimal then [⟨true, 32⟩, ⟨false, 32⟩, ⟨true, 64⟩, ⟨false, 64⟩]
    else [⟨true, 32⟩, ⟨true, 64⟩]
  | .unsigned _ => [⟨false, 32⟩, ⟨false, 64⟩]
  | .long _ => [⟨false, 64⟩]

/-- The type of a number in C, none if it is too large for every one. -/
def Literal.type? (l : Literal) : Option Text.Word :=
  (l.suffix.types l.isHexadecimal).find? (·.holds l.value)

def wrapped (type : Text.Word) (n : Int) : Int :=
  if type.signed then n else n % 2 ^ type.bits

def Operator.value (type : Text.Word) (n : Nat) : Operator → Int
  | .absent => n
  | .complement => wrapped type (-n - 1)
  | .minus => wrapped type (-n)

/-- The value of a constant whose number has the type. -/
def Expression.value (e : Expression) (type : Text.Word) : Int :=
  e.operator.value type e.literal.value

/-- The value of a number in Go. -/
def literalValue? (text : List Char) : Option Nat :=
  match afterHexMark? text with
  | some digits => digits? 16 digits
  | none => if text = ['0'] ∨ text.head? ≠ some '0' then digits? 10 text else none

/-- The value of a number that is converted to an unsigned word, which must have room for it. -/
def conversionValue? (bits : Nat) (text : List Char) : Option Nat := do
  let rest ← Text.afterStart? ("uint" ++ toString bits ++ "(").toList text
  let digits ← Text.beforeEnd? [')'] rest
  (literalValue? digits).filter (· < 2 ^ bits)

/-- The value of a constant expression of Go: a number, its negation, its complement, or its
complement in an unsigned word. -/
def goValue? : List Char → Option Int
  | '-' :: text => (literalValue? text).map fun n : Nat => -(n : Int)
  | '^' :: text =>
    let narrow := (conversionValue? 32 text).map fun n : Nat => 2 ^ 32 - 1 - (n : Int)
    let wide := (conversionValue? 64 text).map fun n : Nat => 2 ^ 64 - 1 - (n : Int)
    ((literalValue? text).map fun n : Nat => -(n : Int) - 1) <|> narrow <|> wide
  | text => (literalValue? text).map fun n : Nat => (n : Int)

end Values

section Digits

variable {base n d : Nat} {c : Char} {text : List Char} {isHexadecimal : Bool}

theorem numeral_mem (number : Numeral base text n) (mem : c ∈ text) : ∃ d, IsDigit base c d := by
  induction number with
  | one digit => exact ⟨_, List.mem_singleton.1 mem ▸ digit⟩
  | more front digit ih =>
    obtain mem | mem := List.mem_append.1 mem
    · exact ih mem
    · exact ⟨_, List.mem_singleton.1 mem ▸ digit⟩

theorem numeral_last (number : Numeral base text n) :
    ∃ front c d, text = front ++ [c] ∧ IsDigit base c d ∧
      (front ≠ [] → ∃ m, Numeral base front m ∧ n = m * base + d) := by
  cases number with
  | one digit => exact ⟨[], _, _, rfl, digit, fun absurdity => (absurdity rfl).elim⟩
  | more front digit => exact ⟨_, _, _, rfl, digit, fun _ => ⟨_, front, rfl⟩⟩

theorem isDigit_decimal (digit : IsDigit 10 c d) : c ∉ ['-', '^', '~', '(', 'u', 'F', 'f'] := by
  obtain ⟨below, same⟩ := digit
  obtain rfl | rfl := same <;> interval_cases d <;> decide

theorem isDigit_hexadecimal (digit : IsDigit 16 c d) : c ∉ ['U', 'u', 'L', 'l', ')'] := by
  obtain ⟨below, same⟩ := digit
  obtain rfl | rfl := same <;> interval_cases d <;> decide

theorem isDigit_fifteen (digit : IsDigit 16 c d) (isLast : c = 'F' ∨ c = 'f') : d = 15 := by
  have read := digit.digit?_eq (by decide)
  obtain rfl | rfl := isLast
  · exact (Option.some.inj read).symm
  · exact (Option.some.inj read).symm

theorem IsDigit.mono (digit : IsDigit 10 c d) : IsDigit 16 c d :=
  ⟨Nat.lt_trans digit.1 (by decide), digit.2⟩

end Digits

namespace Writes

variable {isHexadecimal : Bool} {text front : List Char} {n : Nat} {c : Char}

theorem afterHexMark?_eq_none (writes : Writes false text n) : afterHexMark? text = none := by
  cases writes with
  | decimal number =>
    unfold afterHexMark?
    split
    · exact absurd number (not_numeral_marked (.inl rfl))
    · exact absurd number (not_numeral_marked (.inr rfl))
    · rfl

theorem literalValue?_eq (writes : Writes isHexadecimal text n) : literalValue? text = some n := by
  cases writes with
  | decimal number leading =>
    rw [literalValue?, afterHexMark?_eq_none (.decimal number leading)]
    exact (if_pos leading).trans (number.digits?_eq (by decide))
  | hexadecimal isMark number =>
    obtain rfl | rfl := isMark
    · exact number.digits?_eq (by decide)
    · exact number.digits?_eq (by decide)

theorem head (writes : Writes isHexadecimal text n) :
    ∃ c rest d, text = c :: rest ∧ IsDigit 10 c d := by
  cases writes with
  | decimal number =>
    cases text with
    | nil => exact absurd rfl number.ne_nil
    | cons c rest =>
      obtain ⟨d, digit⟩ := numeral_mem number (List.mem_cons_self ..)
      exact ⟨c, rest, d, rfl, digit⟩
  | hexadecimal => exact ⟨'0', _, 0, rfl, by decide, .inl rfl⟩

theorem last (writes : Writes isHexadecimal text n) :
    ∃ front c d, text = front ++ [c] ∧ IsDigit 16 c d := by
  cases writes with
  | decimal number =>
    obtain ⟨front, c, d, rfl, digit, -⟩ := numeral_last number
    exact ⟨front, c, d, rfl, IsDigit.mono digit⟩
  | hexadecimal isMark number =>
    obtain ⟨front, c, d, rfl, digit, -⟩ := numeral_last number
    exact ⟨_ :: _ :: front, c, d, rfl, digit⟩

/-- A number that ends with the digit of fifteen is hexadecimal. Without this digit it is the mark
alone, or a number that is sixteen times smaller. -/
theorem without_last (writes : Writes isHexadecimal (front ++ [c]) n) (isLast : c = 'F' ∨ c = 'f') :
    ∃ mark digits, isHexadecimal = true ∧ (mark = 'x' ∨ mark = 'X') ∧ front = '0' :: mark :: digits ∧
      (digits = [] ∨ ∃ m, Numeral 16 digits m ∧ n = m * 16 + 15) := by
  generalize whole : front ++ [c] = text at writes
  cases writes with
  | decimal number =>
    obtain ⟨d, digit⟩ := numeral_mem number (c := c) (by simp [← whole])
    have notLast := isDigit_decimal digit
    obtain rfl | rfl := isLast <;> simp at notLast
  | @hexadecimal mark digits _ isMark number =>
    obtain ⟨front', c', d, rfl, digit, shorter⟩ := numeral_last number
    obtain ⟨rfl, rfl⟩ : front = '0' :: mark :: front' ∧ c = c' := by
      have same : front.concat c = ('0' :: mark :: front').concat c' := by simpa using whole
      exact List.concat_inj.1 same
    refine ⟨mark, front', rfl, isMark, rfl, ?_⟩
    by_cases empty : front' = []
    · exact .inl empty
    · obtain ⟨m, number', value⟩ := shorter empty
      exact .inr ⟨m, number', by rw [value, isDigit_fifteen digit isLast]⟩

end Writes

section Stripping

variable {text ending : List Char} {endings : List String} {c d : Char}

theorem beforeEnd?_eq_none (last : text.getLast? = some c) (lastOfEnding : ending.getLast? = some d)
    (differ : d ≠ c) : Text.beforeEnd? ending text = none := by
  rw [Option.eq_none_iff_forall_ne_some]
  intro rest taken
  rw [Text.beforeEnd?_eq_some.1 taken, List.getLast?_append, lastOfEnding] at last
  exact differ (Option.some.inj last)

theorem withoutEnding_eq_self (last : text.getLast? = some c)
    (others : ∀ ending ∈ endings, ∃ d, ending.toList.getLast? = some d ∧ d ≠ c) :
    withoutEnding endings text = text := by
  have absent : endings.findSome? (fun ending => Text.beforeEnd? ending.toList text) = none := by
    rw [List.findSome?_eq_none_iff]
    intro ending mem
    obtain ⟨d, lastOfEnding, differ⟩ := others ending mem
    exact beforeEnd?_eq_none last lastOfEnding differ
  rw [withoutEnding, absent]
  rfl

theorem withoutEnding_append {upper lower : String} (lastOfUpper : upper.toList.getLast? = some c)
    (lastOfLower : lower.toList.getLast? = some d) (differ : c ≠ d) (front : List Char) (isUpper : Bool) :
    withoutEnding [upper, lower] (front ++ (if isUpper then upper else lower).toList) = front := by
  have taken (ending : String) : Text.beforeEnd? ending.toList (front ++ ending.toList) = some front :=
    Text.beforeEnd?_eq_some.2 rfl
  cases isUpper with
  | true => simp [withoutEnding, taken]
  | false =>
    have last : (front ++ lower.toList).getLast? = some d := by
      rw [List.getLast?_append, lastOfLower]
      rfl
    simp [withoutEnding, taken, beforeEnd?_eq_none last lastOfUpper differ]

def withoutFloatSuffix (text : List Char) : List Char :=
  if (afterHexMark? text).isSome then text else withoutEnding ["F", "f"] text

def spelled (text : List Char) : String :=
  let digits := withoutEnding ["ULL", "ull"] text
  let bare := withoutEnding ["U", "u"] digits
  complement (digits.length ≠ text.length) (bare.length ≠ digits.length) bare

theorem goText_eq (value : String) :
    goText value = spelled (withoutParentheses (withoutFloatSuffix value.toList)) := rfl

theorem withoutFloatSuffix_eq_self (last : text.getLast? = some c) (other : c ≠ 'F' ∧ c ≠ 'f') :
    withoutFloatSuffix text = text := by
  unfold withoutFloatSuffix
  split
  · rfl
  · exact withoutEnding_eq_self last (by simp [other.1.symm, other.2.symm])

def Suffix.isLong : Suffix → Bool
  | .long _ => true
  | _ => false

def Suffix.isUnsigned : Suffix → Bool
  | .unsigned _ => true
  | _ => false

theorem Suffix.getLast? (suffix : Suffix) (marked : suffix ≠ .absent) (front : List Char) :
    ∃ c, (front ++ suffix.text).getLast? = some c ∧ c ∈ ['U', 'u', 'L', 'l'] := by
  cases suffix with
  | absent => exact absurd rfl marked
  | unsigned isUpper => cases isUpper <;> simp [Suffix.text]
  | long isUpper => cases isUpper <;> simp [Suffix.text]

theorem spelled_suffix (last : text.getLast? = some c) (isDigit : c ∉ ['U', 'u', 'L', 'l'])
    (suffix : Suffix) :
    spelled (text ++ suffix.text) = complement suffix.isLong suffix.isUnsigned text := by
  have others (endings : List String)
      (listed : ∀ ending ∈ endings, ∃ d ∈ ['U', 'u', 'L', 'l'], ending.toList.getLast? = some d) :
      withoutEnding endings text = text :=
    withoutEnding_eq_self last fun ending mem =>
      have ⟨d, special, lastOfEnding⟩ := listed ending mem
      ⟨d, lastOfEnding, fun same => isDigit (same ▸ special)⟩
  have noLong := others ["ULL", "ull"] (by simp)
  have noUnsigned := others ["U", "u"] (by simp)
  cases suffix with
  | absent => simp [spelled, Suffix.text, Suffix.isLong, Suffix.isUnsigned, noLong, noUnsigned]
  | unsigned isUpper =>
    have isShort : withoutEnding ["ULL", "ull"] (text ++ (Suffix.unsigned isUpper).text) =
        text ++ (Suffix.unsigned isUpper).text := by
      cases isUpper
      · exact withoutEnding_eq_self (c := 'u') (by simp [Suffix.text]) (by simp)
      · exact withoutEnding_eq_self (c := 'U') (by simp [Suffix.text]) (by simp)
    have taken : withoutEnding ["U", "u"] (text ++ (Suffix.unsigned isUpper).text) = text :=
      withoutEnding_append rfl rfl (by decide) text isUpper
    have marked : (Suffix.unsigned isUpper).text ≠ [] := by cases isUpper <;> decide
    simp [spelled, isShort, taken, marked, Suffix.isLong, Suffix.isUnsigned]
  | long isUpper =>
    have taken : withoutEnding ["ULL", "ull"] (text ++ (Suffix.long isUpper).text) = text :=
      withoutEnding_append rfl rfl (by decide) text isUpper
    have marked : (Suffix.long isUpper).text ≠ [] := by cases isUpper <;> decide
    simp [spelled, taken, noUnsigned, marked, Suffix.isLong, Suffix.isUnsigned]

end Stripping

section GoValues

variable {text : List Char} {c : Char} {isHexadecimal : Bool} {n : Nat}

theorem conversionValue?_eq_none (bits : Nat) (first : text.head? = some c) (other : c ≠ 'u') :
    conversionValue? bits text = none := by
  have absent : Text.afterStart? ("uint" ++ toString bits ++ "(").toList text = none := by
    rw [Option.eq_none_iff_forall_ne_some]
    intro rest found
    rw [Text.afterStart?_eq_some.1 found] at first
    simp at first
    exact other first.symm
  rw [conversionValue?, absent]
  rfl

theorem conversionValue?_eq (bits : Nat) (text : List Char) :
    conversionValue? bits (("uint" ++ toString bits ++ "(").toList ++ (text ++ [')'])) =
      (literalValue? text).filter (· < 2 ^ bits) := by
  rw [conversionValue?, Text.afterStart?_eq_some.2 rfl, Option.bind_eq_bind, Option.bind_some,
    Text.beforeEnd?_eq_some.2 rfl]
  rfl

theorem goValue?_complement (first : text.head? = some c) (other : c ≠ 'u') :
    goValue? ('^' :: text) = (literalValue? text).map fun n : Nat => -(n : Int) - 1 := by
  simp [goValue?, conversionValue?_eq_none _ first other]

theorem literalValue?_conversion (rest : List Char) : literalValue? ('u' :: rest) = none := by
  simp [literalValue?, afterHexMark?, digits?, Text.digit?]

theorem goValue?_narrow (text : List Char) :
    goValue? ('^' :: ("uint32(".toList ++ (text ++ [')']))) =
      ((literalValue? text).filter (· < 2 ^ 32)).map fun n : Nat => 2 ^ 32 - 1 - (n : Int) := by
  have narrow : conversionValue? 32 ("uint32(".toList ++ (text ++ [')'])) = _ :=
    conversionValue?_eq 32 text
  have wide : conversionValue? 64 ("uint32(".toList ++ (text ++ [')'])) = none := rfl
  have notPlain : literalValue? ("uint32(".toList ++ (text ++ [')'])) = none :=
    literalValue?_conversion _
  rw [goValue?, narrow, wide, notPlain]
  simp

theorem goValue?_wide (text : List Char) :
    goValue? ('^' :: ("uint64(".toList ++ (text ++ [')']))) =
      ((literalValue? text).filter (· < 2 ^ 64)).map fun n : Nat => 2 ^ 64 - 1 - (n : Int) := by
  have narrow : conversionValue? 32 ("uint64(".toList ++ (text ++ [')'])) = none := rfl
  have wide : conversionValue? 64 ("uint64(".toList ++ (text ++ [')'])) = _ :=
    conversionValue?_eq 64 text
  have notPlain : literalValue? ("uint64(".toList ++ (text ++ [')'])) = none :=
    literalValue?_conversion _
  rw [goValue?, narrow, wide, notPlain]
  simp

def Operator.goValue? (suffix : Suffix) (n : Nat) : Operator → Option Int
  | .absent => some n
  | .minus => some (-n)
  | .complement =>
    if suffix.isLong then if n < 2 ^ 64 then some (2 ^ 64 - 1 - n) else none
    else if suffix.isUnsigned then if n < 2 ^ 32 then some (2 ^ 32 - 1 - n) else none
    else some (-n - 1)

theorem complement_toList (isLong isUnsigned : Bool) (text : List Char) :
    (complement isLong isUnsigned ('~' :: text)).toList =
      '^' :: (if isLong then "uint64(".toList ++ (text ++ [')'])
        else if isUnsigned then "uint32(".toList ++ (text ++ [')']) else text) := by
  cases isLong <;> cases isUnsigned <;> simp [complement, toString]

theorem goValue?_spelled (writes : Writes isHexadecimal text n) (operator : Operator) (suffix : Suffix) :
    goValue? (complement suffix.isLong suffix.isUnsigned (operator.text ++ text)).toList =
      operator.goValue? suffix n := by
  have value := writes.literalValue?_eq
  obtain ⟨c, rest, d, rfl, digit⟩ := writes.head
  have first := isDigit_decimal digit
  cases operator with
  | absent =>
    have bare : complement suffix.isLong suffix.isUnsigned (c :: rest) = .ofList (c :: rest) := by
      unfold complement
      split
      · simp_all
      · rfl
    change goValue? (complement _ _ (c :: rest)).toList = some (n : Int)
    rw [bare, String.toList_ofList]
    unfold goValue?
    split
    · simp_all
    · simp_all
    · simp [value]
  | minus => simp [complement, Operator.text, goValue?, Operator.goValue?, value]
  | complement =>
    change goValue? (complement _ _ ('~' :: c :: rest)).toList = _
    rw [complement_toList, Operator.goValue?]
    split
    · rw [goValue?_wide, value, Option.filter_some]
      split <;> simp_all
    · split
      · rw [goValue?_narrow, value, Option.filter_some]
        split <;> simp_all
      · rw [goValue?_complement (c := c) rfl (by simp_all), value]
        rfl

end GoValues

section Expressions

/-- The unsigned word in which a complement is spelled. -/
def Suffix.word? : Suffix → Option Text.Word
  | .absent => none
  | .unsigned _ => some ⟨false, 32⟩
  | .long _ => some ⟨false, 64⟩

/-- The last digit is taken for the suffix of a floating point number: something stands before the
mark that tells a hexadecimal number, and neither a parenthesis nor a suffix behind its digits. -/
def Expression.LosesDigit (e : Expression) : Prop :=
  e.isEnclosed = false ∧ e.operator ≠ .absent ∧ e.literal.suffix = .absent ∧
    ∃ c, e.literal.digits.getLast? = some c ∧ (c = 'F' ∨ c = 'f')

/-- The number has an unsigned type in C, in which its negative wraps around, or in which it has
another complement than in the word that the spelling names. -/
def Expression.LosesWidth (e : Expression) (type : Text.Word) : Prop :=
  type.signed = false ∧
    (e.operator = .minus ∧ e.literal.value ≠ 0 ∨
      e.operator = .complement ∧ e.literal.suffix.word? ≠ some type)

variable {l : Literal} {type : Text.Word}

theorem type?_bounds (typed : l.type? = some type) :
    type = ⟨true, 32⟩ ∧ l.value < 2 ^ 31 ∨ type = ⟨true, 64⟩ ∧ l.value < 2 ^ 63 ∨
      type = ⟨false, 32⟩ ∧ l.value < 2 ^ 32 ∨ type = ⟨false, 64⟩ ∧ l.value < 2 ^ 64 := by
  have holds : type.holds l.value = true :=
    List.find?_some (p := fun type : Text.Word => type.holds l.value) typed
  have known : l.suffix.types l.isHexadecimal ⊆ [⟨true, 32⟩, ⟨true, 64⟩, ⟨false, 32⟩, ⟨false, 64⟩] := by
    cases l.suffix <;> cases l.isHexadecimal <;> simp [Suffix.types]
  have listed := known (List.mem_of_find?_eq_some typed)
  rw [Text.Word.holds_iff] at holds
  simp only [List.mem_cons, List.not_mem_nil, or_false] at listed
  obtain rfl | rfl | rfl | rfl := listed <;> simp [Text.Word.least, Text.Word.greatest] at holds <;>
    simp <;> omega

/-- A short unsigned suffix gives the wide word only to what the narrow one has no room for. -/
theorem type?_suffix (typed : l.type? = some type) :
    (l.suffix.isLong = true → type = ⟨false, 64⟩) ∧
      (l.suffix.isUnsigned = true → type = ⟨false, 32⟩ ∨ type = ⟨false, 64⟩ ∧ 2 ^ 32 ≤ l.value) := by
  unfold Literal.type? at typed
  cases suffix : l.suffix with
  | absent => simp [Suffix.isLong, Suffix.isUnsigned]
  | unsigned isUpper =>
    rw [suffix, Suffix.types, List.find?_cons] at typed
    split at typed
    · cases typed
      simp [Suffix.isLong]
    · next full =>
      have large : 2 ^ 32 ≤ l.value := by
        by_contra small
        have holds : Text.Word.holds ⟨false, 32⟩ l.value = true := by
          simp [Text.Word.holds_iff, Text.Word.least, Text.Word.greatest]
          omega
        exact Bool.false_ne_true (full.symm.trans holds)
      obtain rfl := List.mem_singleton.1 (List.mem_of_find?_eq_some typed)
      exact ⟨by simp [Suffix.isLong], fun _ => .inr ⟨rfl, large⟩⟩
  | long isUpper =>
    have listed := List.mem_of_find?_eq_some typed
    rw [suffix, Suffix.types, List.mem_singleton] at listed
    simp [listed, Suffix.isUnsigned]

/-- The value in Go is the one in C exactly if the operation needs no other width than the
spelling gives it. -/
theorem operator_value_iff (typed : l.type? = some type) (operator : Operator) :
    operator.goValue? l.suffix l.value = some (operator.value type l.value) ↔
      ¬(type.signed = false ∧
        (operator = .minus ∧ l.value ≠ 0 ∨ operator = .complement ∧ l.suffix.word? ≠ some type)) := by
  have bounds := type?_bounds typed
  obtain ⟨isWide, isNarrow⟩ := type?_suffix typed
  generalize l.value = n at *
  cases operator with
  | absent => simp [Operator.goValue?, Operator.value]
  | minus =>
    simp only [Operator.goValue?, Operator.value, wrapped]
    obtain ⟨rfl, below⟩ | ⟨rfl, below⟩ | ⟨rfl, below⟩ | ⟨rfl, below⟩ := bounds <;> simp <;> omega
  | complement =>
    simp only [Operator.goValue?, Operator.value, wrapped]
    cases suffix : l.suffix with
    | absent =>
      simp only [Suffix.isLong, Suffix.isUnsigned, Suffix.word?]
      obtain ⟨rfl, below⟩ | ⟨rfl, below⟩ | ⟨rfl, below⟩ | ⟨rfl, below⟩ := bounds <;> simp <;> omega
    | unsigned isUpper =>
      obtain rfl | ⟨rfl, large⟩ := isNarrow (by rw [suffix]; rfl)
      · have below : n < 2 ^ 32 := by simpa using bounds
        simp [Suffix.isLong, Suffix.isUnsigned, Suffix.word?]
        omega
      · simp [Suffix.isLong, Suffix.isUnsigned, Suffix.word?]
        omega
    | long isUpper =>
      obtain rfl := isWide (by rw [suffix]; rfl)
      have below : n < 2 ^ 64 := by simpa using bounds
      simp [Suffix.isLong, Suffix.word?]
      omega

variable {e : Expression}

theorem Writes.getLast? {isHexadecimal : Bool} {digits : List Char} {n : Nat}
    (writes : Writes isHexadecimal digits n) (front : List Char) :
    ∃ c d, (front ++ digits).getLast? = some c ∧ IsDigit 16 c d := by
  obtain ⟨front', c, d, rfl, digit⟩ := writes.last
  exact ⟨c, d, by simp, digit⟩

theorem spelled_inner (e : Expression) :
    spelled e.inner = complement e.literal.suffix.isLong e.literal.suffix.isUnsigned
      (e.operator.text ++ e.literal.digits) := by
  obtain ⟨c, d, last, digit⟩ := e.literal.writes.getLast? e.operator.text
  have other := isDigit_hexadecimal digit
  exact spelled_suffix last (by simp_all) e.literal.suffix

theorem withoutParentheses_eq_self {operator : Operator} {text : List Char} {c : Char}
    (first : text.head? = some c) (other : c ≠ '(') :
    withoutParentheses (operator.text ++ text) = operator.text ++ text := by
  unfold withoutParentheses
  split
  · next rest whole =>
    cases operator with
    | absent =>
      obtain rfl : text = '(' :: rest := whole
      exact (other (Option.some.inj first).symm).elim
    | complement => cases whole
    | minus => cases whole
  · rfl

theorem withoutFloatSuffix_inner (kept : ¬e.LosesDigit) (bare : e.isEnclosed = false) :
    withoutFloatSuffix e.inner = e.inner := by
  cases suffix : e.literal.suffix with
  | absent =>
    obtain ⟨front, c, d, digits, digit⟩ := e.literal.writes.last
    have inner : e.inner = e.operator.text ++ (front ++ [c]) := by
      simp [Expression.inner, suffix, digits, Suffix.text]
    by_cases isLast : c = 'F' ∨ c = 'f'
    · -- Only a number that begins with its mark keeps this digit.
      have isAbsent : e.operator = .absent := by
        by_contra present
        exact kept ⟨bare, present, suffix, c, by simp [digits], isLast⟩
      obtain ⟨mark, rest, -, isMark, rfl, -⟩ := (digits ▸ e.literal.writes).without_last isLast
      rw [inner, isAbsent]
      obtain rfl | rfl := isMark <;> rfl
    · exact withoutFloatSuffix_eq_self (by simp [inner]) (not_or.1 isLast)
  | unsigned | long =>
    obtain ⟨c, last, special⟩ := e.literal.suffix.getLast? (by simp [suffix])
      (e.operator.text ++ e.literal.digits)
    have other : c ≠ 'F' ∧ c ≠ 'f' := by
      constructor <;> rintro rfl <;> simp at special
    exact withoutFloatSuffix_eq_self last other

theorem goText_kept (kept : ¬e.LosesDigit) : goText e.text = spelled e.inner := by
  rw [goText_eq, Expression.text, String.toList_ofList]
  cases enclosed : e.isEnclosed with
  | true =>
    have last : ('(' :: e.inner ++ [')']).getLast? = some ')' := by
      rw [List.getLast?_append]
      rfl
    have opened : withoutParentheses ('(' :: (e.inner ++ [')'])) = e.inner := by
      simp [withoutParentheses, Text.beforeEnd?_eq_some.2 rfl]
    rw [if_pos rfl, withoutFloatSuffix_eq_self last (by decide), List.cons_append, opened]
  | false =>
    obtain ⟨c, rest, d, digits, digit⟩ := e.literal.writes.head
    have opened : withoutParentheses e.inner = e.inner := by
      rw [Expression.inner, List.append_assoc]
      have other := isDigit_decimal digit
      exact withoutParentheses_eq_self (c := c) (by simp [digits]) (by simp_all)
    rw [if_neg (by decide), withoutFloatSuffix_inner kept enclosed, opened]

theorem goText_lost (lost : e.LosesDigit) :
    ∃ mark digits, (mark = 'x' ∨ mark = 'X') ∧
      (digits = [] ∨ ∃ m, Numeral 16 digits m ∧ e.literal.value = m * 16 + 15) ∧
      goText e.text = complement false false (e.operator.text ++ '0' :: mark :: digits) := by
  obtain ⟨bare, present, suffix, c, last, isLast⟩ := lost
  obtain ⟨front, whole⟩ := List.getLast?_eq_some_iff.1 last
  obtain ⟨mark, digits, -, isMark, rfl, shorter⟩ := (whole ▸ e.literal.writes).without_last isLast
  refine ⟨mark, digits, isMark, shorter, ?_⟩
  have inner : e.inner = e.operator.text ++ '0' :: mark :: digits ++ [c] := by
    simp [Expression.inner, suffix, whole, Suffix.text]
  have taken : withoutFloatSuffix e.inner = e.operator.text ++ '0' :: mark :: digits := by
    -- Behind the operator the mark is not seen, so the last digit is taken for a suffix.
    have unmarked : afterHexMark? e.inner = none := by
      rw [inner]
      cases operator : e.operator with
      | absent => exact absurd operator present
      | complement => rfl
      | minus => rfl
    have ending : [c] = (if c == 'F' then "F" else "f").toList := by
      obtain rfl | rfl := isLast <;> rfl
    rw [withoutFloatSuffix, unmarked, inner, ending]
    exact withoutEnding_append (c := 'F') (d := 'f') rfl rfl (by decide) _ (c == 'F')
  have opened : withoutParentheses (e.operator.text ++ '0' :: mark :: digits) =
      e.operator.text ++ '0' :: mark :: digits :=
    withoutParentheses_eq_self (c := '0') rfl (by decide)
  have unsuffixed : spelled (e.operator.text ++ '0' :: mark :: digits) =
      complement false false (e.operator.text ++ '0' :: mark :: digits) := by
    obtain ⟨c, last, other⟩ : ∃ c, (e.operator.text ++ '0' :: mark :: digits).getLast? = some c ∧
        c ∉ ['U', 'u', 'L', 'l'] := by
      obtain rfl | ⟨m, number, -⟩ := shorter
      · refine ⟨mark, by simp, ?_⟩
        obtain rfl | rfl := isMark <;> decide
      · obtain ⟨c, d, last, digit⟩ := (Writes.hexadecimal isMark number).getLast? e.operator.text
        have other := isDigit_hexadecimal digit
        exact ⟨c, last, by simp_all⟩
    simpa [Suffix.text, Suffix.isLong, Suffix.isUnsigned] using spelled_suffix last other .absent
  rw [goText_eq, Expression.text, String.toList_ofList, if_neg (by simp [bare]), taken, opened,
    unsuffixed]

theorem goValue?_operation (text : List Char) {c : Char} (first : text.head? = some c) (other : c ≠ 'u')
    {operator : Operator} (present : operator ≠ .absent) :
    ∃ below : Int, (∀ type n, operator.value type n = wrapped type (-n - below)) ∧
      (below = 0 ∨ below = 1) ∧
      goValue? (complement false false (operator.text ++ text)).toList =
        (literalValue? text).map fun n : Nat => -(n : Int) - below := by
  cases operator with
  | absent => exact absurd rfl present
  | minus =>
    exact ⟨0, by simp [Operator.value], .inl rfl, by simp [complement, Operator.text, goValue?]⟩
  | complement =>
    refine ⟨1, by simp [Operator.value], .inr rfl, ?_⟩
    rw [Operator.text, List.singleton_append, complement_toList]
    exact goValue?_complement first other

theorem wrapped_ne (bits : type.bits = 32 ∨ type.bits = 64) (m : Nat) {below : Int}
    (isSmall : below = 0 ∨ below = 1) :
    wrapped type (-((m * 16 + 15 : Nat) : Int) - below) ≠ -m - below := by
  unfold wrapped
  split
  · omega
  · -- The remainder is not negative, so both are zero.
    intro same
    have positive : (0 : Int) ≤ (-((m * 16 + 15 : Nat) : Int) - below) % 2 ^ type.bits :=
      Int.emod_nonneg _ (by positivity)
    obtain ⟨rfl, rfl⟩ : m = 0 ∧ below = 0 := by omega
    revert same
    obtain bits | bits := bits <;> rw [bits] <;> decide

/-- A number without its last digit, or the mark without digits, does not stand for it. -/
theorem goValue?_lost {mark : Char} {digits : List Char} (isMark : mark = 'x' ∨ mark = 'X')
    (shorter : digits = [] ∨ ∃ m, Numeral 16 digits m ∧ e.literal.value = m * 16 + 15)
    (present : e.operator ≠ .absent) (typed : e.literal.type? = some type) :
    goValue? (complement false false (e.operator.text ++ '0' :: mark :: digits)).toList ≠
      some (e.value type) := by
  have bits : type.bits = 32 ∨ type.bits = 64 := by
    obtain ⟨rfl, -⟩ | ⟨rfl, -⟩ | ⟨rfl, -⟩ | ⟨rfl, -⟩ := type?_bounds typed <;> simp
  have number : literalValue? ('0' :: mark :: digits) = digits? 16 digits := by
    obtain rfl | rfl := isMark <;> rfl
  obtain ⟨below, value, isSmall, go⟩ := goValue?_operation ('0' :: mark :: digits) rfl
    (by decide) present
  rw [go, number, Expression.value, value]
  obtain rfl | ⟨m, written, large⟩ := shorter
  · exact nofun
  · rw [written.digits?_eq (by decide), Option.map_some, large]
    exact fun same => wrapped_ne bits m isSmall (Option.some.inj same).symm

/-- The Go spelling of an integer constant is a constant expression of the same value exactly if no
digit of it is taken for a suffix, and no operation has another width in C than in the spelling. -/
theorem goText_value_iff (e : Expression) (type : Text.Word) (typed : e.literal.type? = some type) :
    goValue? (goText e.text).toList = some (e.value type) ↔ ¬e.LosesDigit ∧ ¬e.LosesWidth type := by
  by_cases lost : e.LosesDigit
  · obtain ⟨mark, digits, isMark, shorter, spelling⟩ := goText_lost lost
    rw [spelling]
    exact iff_of_false (goValue?_lost isMark shorter lost.2.1 typed) fun kept => kept.1 lost
  · rw [goText_kept lost, spelled_inner, goValue?_spelled e.literal.writes]
    exact (operator_value_iff typed e.operator).trans (and_iff_right lost).symm

def allOnes : Expression where
  isEnclosed := true
  operator := .complement
  literal :=
    { isHexadecimal := false, digits := ['0'], value := 0, suffix := .unsigned true
      writes := .decimal (.one ⟨by decide, .inl rfl⟩) (.inl rfl) }

theorem allOnes_kept :
    allOnes.text = "(~0U)" ∧ allOnes.literal.type? = some ⟨false, 32⟩ ∧
      allOnes.value ⟨false, 32⟩ = 4294967295 ∧
      goValue? (goText allOnes.text).toList = some (allOnes.value ⟨false, 32⟩) :=
  ⟨by decide, by decide, by decide, (goText_value_iff allOnes ⟨false, 32⟩ (by decide)).2
    ⟨fun lost => Bool.noConfusion lost.1,
      fun lost => by simp [Expression.LosesWidth, allOnes, Suffix.word?] at lost⟩⟩

theorem isDigit_upperF : IsDigit 16 'F' 15 := ⟨by decide, .inr rfl⟩

def highBits : Expression where
  isEnclosed := false
  operator := .complement
  literal :=
    { isHexadecimal := true, digits := ['0', 'x', 'F', 'F'], value := 255, suffix := .absent
      writes := .hexadecimal (.inl rfl) (.more (.one isDigit_upperF) isDigit_upperF) }

theorem highBits_lost :
    highBits.text = "~0xFF" ∧ highBits.literal.type? = some ⟨true, 32⟩ ∧
      highBits.value ⟨true, 32⟩ = -256 ∧
      goText highBits.text = "^0xF" ∧ goValue? (goText highBits.text).toList = some (-16) := by
  have text : highBits.text = "~0xFF" := by decide
  have spelling : goText "~0xFF" = "^0xF" := by decide
  rw [text, spelling]
  decide

end Expressions

end VulkanBindings.Constant
