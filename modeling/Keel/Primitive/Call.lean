import Keel.Machine
import Keel.Numeral
import Keel.Value.Style

/-! # Calling primitives

A primitive that refuses its arguments leaves the machine as it was.
-/

namespace Keel

/-- The result of an operation on two integers; division rounds toward the lower integer. -/
def Arithmetic.apply (op : Arithmetic) (a b : Int) : Except Misuse Value :=
  match op with
  | .add => .ok (.int (a + b))
  | .sub => .ok (.int (a - b))
  | .mul => .ok (.int (a * b))
  | .div => if b = 0 then .error .divisionByZero else .ok (.int (a.fdiv b))
  | .less => .ok (.bool (a < b))
  | .greater => .ok (.bool (a > b))
  | .same => .ok (.bool (a = b))

def Test.holds : Test → Value → Bool
  | .atom, v => !v.isPair
  | .symbol, v => v.isSymbol
  | .integer, .int _ => true
  | .integer, _ => false
  | .null, v => v == .nil

namespace Primitive

/-- The character codes that can be written. -/
def characterOf? (code : Int) : Option Char :=
  if 0 ≤ code ∧ code ≤ 255 then some (Char.ofNat code.toNat) else none

/-- Calls a primitive; `style` says how `print` writes a value. -/
def call (style : Style) (limit : Nat) (p : Primitive) (args : List Value) : Action Value :=
  match p, args with
  | .getchar, [] => do
    match ← Action.nextChar with
    | some c => return .int c.toNat
    | none => return .int (-1)
  | .print, [v] => do
    Action.write (← Action.inspecting fun s => style.write s.closureName limit v)
    return .symbol "ok"
  | .itoc, [.int code] =>
    match characterOf? code with
    | some c => return .symbol c.toString
    | none => do Action.misuse (.notCharacterCode (← Action.ofExcept (Value.numeral code)))
  | .cat, [.symbol a, .symbol b] => return .symbol (a ++ b)
  | .arithmetic op, [.int a, .int b] =>
    match op.apply a b with
    | .ok v => return v
    | .error cause => Action.misuse cause
  | .list, items => Action.updating (·.newList items .nil)
  | .pair, [a, b] => Action.updating (·.newPair a b)
  | .car, [.pair _ first _] => return first
  | .cdr, [.pair _ _ second] => return second
  | .eq, [a, b] => return .bool (a.identical b)
  | .test kind, [v] => return .bool (kind.holds v)
  | p, _ => Action.misuse (.badCall p)

end Primitive

end Keel
