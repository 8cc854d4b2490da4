import Keel.Fault
import Keel.Value.Basic

/-! # Identity and equality

`identical` tells pairs apart by identity and other values by kind and content.
`equal` compares pairs part by part and counts a truth value as the number 1 or
0. It may descend into first parts `limit` times; the length of lists is free.
-/

namespace Keel.Value

def identical : Value → Value → Bool
  | .pair i _ _, .pair j _ _ => i == j
  | .pair .., _ => false
  | _, .pair .. => false
  | x, y => x == y

/-- The number that a value counts as. -/
def number? : Value → Option Int
  | .int i => some i
  | .bool b => some (if b then 1 else 0)
  | _ => none

/-- Equality of two values that are not both pairs. -/
def equalAtoms (x y : Value) : Bool :=
  match x.number?, y.number? with
  | some i, some j => i == j
  | _, _ => x == y

def equal (limit : Nat) : Value → Value → Except Fault Bool
  | .pair _ car cdr, .pair _ car' cdr' =>
    match limit with
    | 0 => throw .tooDeep
    | inner + 1 => do
      if ← equal inner car car' then equal (inner + 1) cdr cdr' else return false
  | x, y => return equalAtoms x y

end Keel.Value
