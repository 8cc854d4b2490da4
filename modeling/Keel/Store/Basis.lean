import Keel.Store.Binding

/-! # The basis

The basis is a frame in which every primitive is bound under its name, and
`empty-symbol` to the symbol whose name is empty.
-/

namespace Keel.Store

/-- Binds the basis in a frame. -/
def register (f : FrameId) (s : Store) : Store :=
  let (id, s) := s.newIdentity
  let s := Primitive.all.foldl (fun s p => (s.define f p.name (.primitive id p)).2) s
  (s.define f "empty-symbol" (.symbol "")).2

/-- A new outermost frame that holds the basis. -/
def newBasis (s : Store) : FrameId × Store :=
  let (f, s) := s.newFrame none
  (f, s.register f)

/-! ## What registering preserves -/

variable {s : Store} {f : FrameId}

def definePrimitives (f : FrameId) (id : Identity) (ps : List Primitive) (s : Store) : Store :=
  ps.foldl (fun s p => (s.define f p.name (.primitive id p)).2) s

theorem register_eq (f : FrameId) (s : Store) :
    s.register f = ((s.newIdentity.2.definePrimitives f s.nextId Primitive.all).define f
      "empty-symbol" (.symbol "")).2 :=
  rfl

section Induction

variable {P : Store → Prop} (hprimitive : ∀ s id p, P s → P (s.define f p.name (.primitive id p)).2)
include hprimitive

theorem definePrimitives_induction (id : Identity) (ps : List Primitive) (hs : P s) :
    P (s.definePrimitives f id ps) := by
  induction ps generalizing s with
  | nil => exact hs
  | cons p ps ih => exact ih (hprimitive s id p hs)

/-- What is preserved by defining the names of the basis is preserved by registering it. -/
theorem register_induction (hempty : ∀ s, P s → P (s.define f "empty-symbol" (.symbol "")).2)
    (hs : P s.newIdentity.2) : P (s.register f) :=
  hempty _ (definePrimitives_induction hprimitive _ _ hs)

end Induction

end Keel.Store
