import Keel.Value.Printer

/-! # The store

The store holds all that evaluation can change: frames, cells and closures, each
numbered in the order in which they were made. A frame binds names to cells and
leads to the frame around it, which is older. Cells are shared, so a value
written through one frame is seen through every frame and closure that has the
same cell.
-/

namespace Keel

abbrev FrameId := Nat

abbrev CellId := Nat

/-- A scope: its bindings in the order in which they were first made, and the scope around it. -/
structure Frame where
  bindings : List (String × CellId)
  outer : Option FrameId
  deriving DecidableEq, Repr, Inhabited

namespace Frame

def cell? (frame : Frame) (name : String) : Option CellId :=
  frame.bindings.lookup name

/-- Binds a name to a cell; a name that is bound already keeps its place. -/
def bind (name : String) (cell : CellId) (frame : Frame) : Frame :=
  if (frame.cell? name).isSome then
    { frame with
      bindings := frame.bindings.map fun (n, c) => if n = name then (n, cell) else (n, c) }
  else
    { frame with bindings := frame.bindings ++ [(name, cell)] }

end Frame

/-- A function made by evaluation, with the frame it was made in. -/
structure Closure where
  formals : List Value
  body : List Value
  frame : FrameId
  name : Option String
  deriving DecidableEq, Repr, Inhabited

structure Store where
  frames : Array Frame
  cells : Array Value
  closures : Array Closure
  /-- The first identity that no pair and no primitive has. -/
  nextId : Identity
  deriving DecidableEq, Inhabited

namespace Store

def empty : Store :=
  ⟨#[], #[], #[], 0⟩

/-! ## Making things -/

def newFrame (outer : Option FrameId) (s : Store) : FrameId × Store :=
  (s.frames.size, { s with frames := s.frames.push ⟨[], outer⟩ })

def newCell (v : Value) (s : Store) : CellId × Store :=
  (s.cells.size, { s with cells := s.cells.push v })

def newClosure (c : Closure) (s : Store) : Value × Store :=
  (.closure s.closures.size, { s with closures := s.closures.push c })

def newIdentity (s : Store) : Identity × Store :=
  (s.nextId, { s with nextId := s.nextId + 1 })

def newPair (car cdr : Value) (s : Store) : Value × Store :=
  (.pair s.nextId car cdr, { s with nextId := s.nextId + 1 })

def newList (items : List Value) (tail : Value) (s : Store) : Value × Store :=
  (Value.listTo s.nextId items tail, { s with nextId := s.nextId + items.length })

/-- The value of a datum, made of new pairs. -/
def load (d : Datum) (s : Store) : Value × Store :=
  let (v, next) := Value.ofDatum d s.nextId
  (v, { s with nextId := next })

/-! ## Looking at things -/

def cell (s : Store) (c : CellId) : Value :=
  s.cells.getD c .absent

def setCell (c : CellId) (v : Value) (s : Store) : Store :=
  { s with cells := s.cells.setIfInBounds c v }

def closureName (s : Store) (id : ClosureId) : Option String :=
  (s.closures[id]?).bind (·.name)

/-- Gives an unnamed closure a name; other values stay as they are. -/
def nameClosure (v : Value) (name : String) (s : Store) : Store :=
  match v with
  | .closure id =>
    { s with
      closures := s.closures.modify id fun c => { c with name := c.name.or (some name) } }
  | _ => s

/-! ## What there is afterwards -/

section Afterwards

variable {s : Store} {v : Value} {name : String}

theorem of_frames_newFrame {outer : Option FrameId} {f : FrameId} {frame : Frame}
    (h : (s.newFrame outer).2.frames[f]? = some frame) :
    (f = s.frames.size ∧ frame = ⟨[], outer⟩) ∨ s.frames[f]? = some frame := by
  simp only [newFrame, Array.getElem?_push] at h
  split at h
  · next heq => exact .inl ⟨heq, (Option.some.inj h).symm⟩
  · exact .inr h

theorem of_closures_newClosure {c c' : Closure} {id : ClosureId}
    (h : (s.newClosure c).2.closures[id]? = some c') : c' = c ∨ s.closures[id]? = some c' := by
  simp only [newClosure, Array.getElem?_push] at h
  split at h
  · exact .inl (Option.some.inj h).symm
  · exact .inr h

/-- Naming changes nothing but names. -/
theorem of_closures_nameClosure {c' : Closure} {id : ClosureId}
    (h : (s.nameClosure v name).closures[id]? = some c') :
    ∃ c name', s.closures[id]? = some c ∧ c' = { c with name := name' } := by
  unfold nameClosure at h
  split at h
  · simp only [Array.getElem?_modify] at h
    split at h
    · obtain ⟨c, hc, rfl⟩ := Option.map_eq_some_iff.1 h
      exact ⟨c, _, hc, rfl⟩
    · exact ⟨c', c'.name, h, rfl⟩
  · exact ⟨c', c'.name, h, rfl⟩

@[simp] theorem frames_nameClosure (s : Store) (v : Value) (name : String) :
    (s.nameClosure v name).frames = s.frames := by
  unfold nameClosure
  split <;> rfl

@[simp] theorem cells_nameClosure (s : Store) (v : Value) (name : String) :
    (s.nameClosure v name).cells = s.cells := by
  unfold nameClosure
  split <;> rfl

end Afterwards

/-! ## Showing values -/

def render (s : Store) (limit : Nat) (v : Value) : Except Fault String :=
  v.render s.closureName limit

def inspect (s : Store) (limit : Nat) (v : Value) : Except Fault String :=
  v.inspect s.closureName limit

end Store

end Keel
