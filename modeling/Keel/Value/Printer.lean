import Keel.Fault
import Keel.Numeral
import Keel.Room
import Keel.Text.Quoted
import Keel.Value.Basic

/-! # Printed values

A value has two written forms. The plain form is the notation that the reader
takes; in it the depth of a value is counted along first parts only. The debug
form shows every pair by its two parts and quotes the names of symbols.
-/

namespace Keel.Value

def numeral (i : Int) : Except Fault String :=
  match Numeral.chars? i with
  | some cs => return String.ofList cs
  | none => throw .tooLong

def showPrimitive (p : Primitive) : String :=
  "#<primitive " ++ p.name ++ ">"

/-- A closure is shown with its name, unless that is missing or empty. -/
def showClosure (name : Option String) : String :=
  match name with
  | none | some "" => "#<closure>"
  | some name => "#<closure " ++ name ++ ">"

/-- The plain form of a value while no list may be opened. -/
def renderFlat (names : ClosureId → Option String) : Value → Except Fault String
  | .int i => numeral i
  | .bool b => return if b then "#t" else "#f"
  | .symbol name => return name
  | .nil => return "nil"
  | .pair .. => throw .tooDeep
  | .primitive _ p => return showPrimitive p
  | .closure id => return showClosure (names id)
  | .absent => return "#<python None>"
  | .text s => return "#<python " ++ Text.quote s ++ ">"

mutual

/-- The plain form of a value, with at most `limit` lists open at once. -/
def render (names : ClosureId → Option String) (limit : Nat) : Value → Except Fault String
  | .pair _ car cdr =>
    match limit with
    | 0 => throw .tooDeep
    | inner + 1 => do
      let first ← render names inner car
      let rest ← renderRest names inner cdr
      return "(" ++ first ++ rest
  | v => renderFlat names v

/-- What follows an item of a list: its other items, a dotted tail if there is one, and the end. -/
def renderRest (names : ClosureId → Option String) (inner : Nat) : Value → Except Fault String
  | .pair _ car cdr => do
    let item ← render names inner car
    let rest ← renderRest names inner cdr
    return " " ++ item ++ rest
  | .nil => return ")"
  | v => do
    let tail ← renderFlat names v
    return " . " ++ tail ++ ")"

end

/-- The debug form of a value, with at most `limit` pairs open at once. -/
def inspect (names : ClosureId → Option String) (limit : Nat) : Value → Except Fault String
  | .int i => numeral i
  | .bool b => return if b then "True" else "False"
  | .symbol name => return "Symbol(" ++ Text.quote name ++ ")"
  | .nil => return "nil"
  | .pair _ car cdr =>
    match limit with
    | 0 => throw .tooDeep
    | inner + 1 => do
      let first ← inspect names inner car
      let second ← inspect names inner cdr
      return "Pair(" ++ first ++ ", " ++ second ++ ")"
  | .primitive _ p => return showPrimitive p
  | .closure id => return showClosure (names id)
  | .absent => return "None"
  | .text s => return Text.quote s

end Keel.Value
