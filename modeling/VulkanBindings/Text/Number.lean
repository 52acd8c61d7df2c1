/-! Integers as they are read from text: digits of a base, after a sign where one is allowed,
within the range of a word. -/

set_option autoImplicit false

namespace VulkanBindings.Text

def digit? (base : Nat) (c : Char) : Option Nat :=
  let value? :=
    if '0' ≤ c && c ≤ '9' then some (c.toNat - '0'.toNat)
    else if 'a' ≤ c && c ≤ 'z' then some (c.toNat - 'a'.toNat + 10)
    else if 'A' ≤ c && c ≤ 'Z' then some (c.toNat - 'A'.toNat + 10)
    else none
  value?.filter (· < base)

def digits? (base : Nat) : List Char → Option Nat
  | [] => none
  | text => text.foldlM (fun n c => (digit? base c).map (n * base + ·)) 0

def natural? (base : Nat) : List Char → Option Nat
  | '+' :: text => digits? base text
  | text => digits? base text

def integer? (base : Nat) : List Char → Option Int
  | '-' :: text => (digits? base text).map fun n => -(n : Int)
  | text => (natural? base text).map fun n => (n : Int)

structure Word where
  signed : Bool
  bits : Nat
  deriving DecidableEq, Repr

namespace Word

def least (w : Word) : Int := if w.signed then -(Nat.pow 2 (w.bits - 1) : Int) else 0

def greatest (w : Word) : Int :=
  (Nat.pow 2 (if w.signed then w.bits - 1 else w.bits) : Int) - 1

def holds (w : Word) (n : Int) : Bool := w.least ≤ n && n ≤ w.greatest

/-- Only signed words are read after a minus sign. -/
def read? (w : Word) (base : Nat) (text : List Char) : Option Int :=
  (if w.signed then integer? base text else (natural? base text).map fun n => (n : Int)).filter w.holds

def name (w : Word) : String :=
  (if w.signed then "i" else "u") ++ toString w.bits

end Word

def word32? (text : List Char) : Option Nat :=
  (natural? 10 text).filter (· < Nat.pow 2 32)

end VulkanBindings.Text
