/-! # Decimal numerals

Integers are unbounded, but only those of at most `maxDigits` decimal digits have
a numeral. A numeral is an optional minus sign and at least one digit.
-/

namespace Keel.Numeral

def maxDigits : Nat := 4300

/-- The least natural number with too many digits. -/
def bound : Nat := Nat.pow 10 maxDigits

/-- The numeral of an integer, if it has one. -/
def chars? : Int → Option (List Char)
  | .ofNat n => if n < bound then some (Nat.toDigits 10 n) else none
  | .negSucc n => if n + 1 < bound then some ('-' :: Nat.toDigits 10 (n + 1)) else none

def digits : List Char → List Char
  | '-' :: cs => cs
  | cs => cs

/-- The text starts like a numeral. -/
def startsNumeral (cs : List Char) : Bool :=
  (digits cs).head?.any Char.isDigit

def isNumeral (cs : List Char) : Bool :=
  startsNumeral cs && (digits cs).all Char.isDigit

/-- The integer that a text of the shape of a numeral denotes. -/
def value : List Char → Int
  | '-' :: cs => -(Nat.ofDigitChars 10 cs 0 : Nat)
  | cs => (Nat.ofDigitChars 10 cs 0 : Nat)

theorem isDigit_of_mem_toDigits {n : Nat} {c : Char} (h : c ∈ Nat.toDigits 10 n) :
    c.isDigit = true :=
  Nat.isDigit_of_mem_toDigits (by decide) (by decide) h

theorem toNat_of_isDigit {c : Char} (h : c.isDigit = true) : 48 ≤ c.toNat ∧ c.toNat ≤ 57 := by
  simpa [Char.isDigit, UInt32.le_iff_toNat_le] using h

end Keel.Numeral
