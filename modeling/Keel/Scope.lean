import Keel.Machine

/-! # Scopes

The operations on a frame whose name is given as a value. Only a symbol can be
bound, so `declare` and `define` refuse any other name, and looking one up finds
nothing.
-/

namespace Keel.Scope

/-- The name that a symbol stands for; no other value can be bound. -/
def bindable (limit : Nat) : Value → Action String
  | .symbol name => pure name
  | v => do Action.misuse (.notBindable (← Action.shown limit v))

/-- How a name is told that is looked up in vain. -/
def nameText (limit : Nat) : Value → Action String
  | .symbol name => pure name
  | .text s => pure s
  | v => Action.shown limit v

/-- Binds a name to a new cell that is not initialised yet. -/
def declare (limit : Nat) (f : FrameId) (name : Value) : Action CellId := do
  let name ← bindable limit name
  Action.updating (·.declare f name)

def define (limit : Nat) (f : FrameId) (name v : Value) : Action CellId := do
  let name ← bindable limit name
  Action.updating (·.define f name v)

/-- Binds several names in order, each to the last value that is given for it. -/
def update (limit : Nat) (f : FrameId) (pairs : List (Value × Value)) : Action Unit :=
  (Store.distinctKeys pairs).forM fun (name, v) => discard (define limit f name v)

/-- The nearest cell that a name is bound to. -/
def find? (s : Store) (f : FrameId) : Value → Option CellId
  | .symbol name => s.findCell? f name
  | _ => none

def assign (limit : Nat) (f : FrameId) (name v : Value) : Action Unit :=
  match name with
  | .symbol name => Action.assign f name v
  | other => do throw (.unbound (.assigned (← nameText limit other)))

def lookup (limit : Nat) (f : FrameId) (name : Value) : Action Value :=
  match name with
  | .symbol name => Action.inspecting (·.lookup f name)
  | other => do throw (.unbound (.read (← nameText limit other)))

end Keel.Scope
