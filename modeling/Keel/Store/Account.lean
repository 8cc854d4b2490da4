import Keel.Store.Binding

/-! # Accounts of frames

A frame is shown by its names and the debug forms of their values, in the order
of binding. The outermost frame of a chain is large and is shown by its size.
-/

namespace Keel.Store

def showBindings (s : Store) (limit : Nat) (f : FrameId) : Except Fault String := do
  let bindings := (s.frames[f]?).elim [] (·.bindings)
  let entries ← bindings.mapM fun (name, c) => return name ++ ": " ++ (← s.inspect limit (s.cell c))
  return "\x7b" ++ ", ".intercalate entries ++ "\x7d"

/-- A frame by itself; that there is one around it is only hinted at. -/
def showFrame (s : Store) (limit : Nat) (f : FrameId) : Except Fault String := do
  let bindings ← s.showBindings limit f
  return if (s.outer? f).isSome then bindings ++ " -> ..." else bindings

/-- A frame with all frames around it. -/
def showChain (s : Store) (limit : Nat) (f : FrameId) : Except Fault String := do
  let frames ← (s.chain f).mapM fun g =>
    if (s.outer? g).isSome then s.showBindings limit g
    else return "<basis: " ++ toString ((s.frames[g]?).elim 0 (·.bindings.length)) ++ " bindings>"
  return "<Environment chain: " ++ " -> ".intercalate frames ++ ">"

def showCell (s : Store) (limit : Nat) (c : CellId) : Except Fault String :=
  return "Cell(" ++ (← s.inspect limit (s.cell c)) ++ ")"

end Keel.Store
