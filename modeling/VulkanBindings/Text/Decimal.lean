import VulkanBindings.Text.Number

/-! Decimal fractions in text, and the bits of the nearest binary floating point number: the
quotient is rounded once, to nearest, a tie to the even neighbour. -/

set_option autoImplicit false

namespace VulkanBindings.Text

structure FloatFormat where
  /-- The digits of the significand, the leading one included. -/
  precision : Nat
  exponentBits : Nat
  deriving DecidableEq, Repr

namespace FloatFormat

def single : FloatFormat := ⟨24, 8⟩

def double : FloatFormat := ⟨53, 11⟩

def width (f : FloatFormat) : Nat := f.precision + f.exponentBits

def leastUnit (f : FloatFormat) : Int := 3 - (Nat.pow 2 (f.exponentBits - 1) : Int) - f.precision

def infinity (f : FloatFormat) : Nat := (Nat.pow 2 f.exponentBits - 1) * Nat.pow 2 (f.precision - 1)

def notANumber (f : FloatFormat) : Nat := f.infinity + Nat.pow 2 (f.precision - 2)

def signed (f : FloatFormat) (negative : Bool) (bits : Nat) : Nat :=
  if negative then bits + Nat.pow 2 (f.width - 1) else bits

end FloatFormat

/-- The quotient's nearest natural number, a tie to the even one. -/
def roundQuotient (num den : Nat) : Nat :=
  let q := num / den
  let r := num % den
  if 2 * r < den then q
  else if 2 * r > den then q + 1
  else q + q % 2

def FloatFormat.ofQuotient (f : FloatFormat) (num den : Nat) : Nat :=
  let guess : Int := (num.log2 : Int) - (den.log2 : Int)
  let below : Bool :=
    if guess ≥ 0 then num < den * Nat.pow 2 guess.toNat else num * Nat.pow 2 (-guess).toNat < den
  let exponent := if below then guess - 1 else guess
  let unit := max (exponent - (f.precision - 1 : Nat)) f.leastUnit
  let significand :=
    if unit ≥ 0 then roundQuotient num (den * Nat.pow 2 unit.toNat)
    else roundQuotient (num * Nat.pow 2 (-unit).toNat) den
  min f.infinity ((unit - f.leastUnit).toNat * Nat.pow 2 (f.precision - 1) + significand)

/-- A decimal fraction: `digits * 10 ^ exponent`. -/
structure Decimal where
  digits : Nat
  exponent : Int
  deriving DecidableEq, Repr

namespace Decimal

-- The bits of the nearest number. Far outside the range of the format the answer is known
-- without the power of ten.
def bits (f : FloatFormat) (d : Decimal) : Nat :=
  let magnitude : Int := (Nat.toDigits 10 d.digits).length + d.exponent
  if d.digits = 0 || magnitude < -400 then 0
  else if magnitude > 400 then f.infinity
  else if d.exponent ≥ 0 then f.ofQuotient (d.digits * Nat.pow 10 d.exponent.toNat) 1
  else f.ofQuotient d.digits (Nat.pow 10 (-d.exponent).toNat)

def read? (text : List Char) : Option Decimal := do
  let isDigit (c : Char) := '0' ≤ c && c ≤ '9'
  let whole := text.takeWhile isDigit
  let rest := text.dropWhile isDigit
  let (places, rest) := match rest with
    | '.' :: rest => (rest.takeWhile isDigit, rest.dropWhile isDigit)
    | _ => ([], rest)
  let digits ← digits? 10 (whole ++ places)
  let exponent ← match rest with
    | [] => some (0 : Int)
    | c :: rest => if c = 'e' || c = 'E' then integer? 10 rest else none
  return ⟨digits, exponent - places.length⟩

end Decimal

-- The bits that a text stands for: a decimal fraction, an infinity or no number, after an
-- optional sign.
def FloatFormat.read? (f : FloatFormat) (text : List Char) : Option Nat :=
  let (negative, rest) := match text with
    | '-' :: rest => (true, rest)
    | '+' :: rest => (false, rest)
    | _ => (false, text)
  let word := String.ofList (rest.map Char.toLower)
  (if word = "inf" || word = "infinity" then some f.infinity
   else if word = "nan" then some f.notANumber
   else (Decimal.read? rest).map (·.bits f)).map (f.signed negative)

end VulkanBindings.Text
