import Keel.Store.Basic
import Keel.Value.Equality

/-! # Bindings

A name is looked up along the chain of frames, from the inside out. `define` and
`declare` change the frame that they are given and no other.
-/

namespace Keel.Store

def ownCell? (s : Store) (f : FrameId) (name : String) : Option CellId :=
  (s.frames[f]?).bind (·.cell? name)

/-- The frame around a frame, which is always older. -/
def outer? (s : Store) (f : FrameId) : Option { g : FrameId // g < f } :=
  match (s.frames[f]?).bind (·.outer) with
  | some g => if h : g < f then some ⟨g, h⟩ else none
  | none => none

def chain (s : Store) (f : FrameId) : List FrameId :=
  match s.outer? f with
  | some ⟨g, _⟩ => f :: s.chain g
  | none => [f]
termination_by f

def root (s : Store) (f : FrameId) : FrameId :=
  match s.outer? f with
  | some ⟨g, _⟩ => s.root g
  | none => f
termination_by f

def findCell? (s : Store) (f : FrameId) (name : String) : Option CellId :=
  match s.ownCell? f name with
  | some c => some c
  | none =>
    match s.outer? f with
    | some ⟨g, _⟩ => s.findCell? g name
    | none => none
termination_by f

/-- Binds a name to a new cell that is not initialised yet. -/
def declare (f : FrameId) (name : String) (s : Store) : CellId × Store :=
  let (c, s) := s.newCell .absent
  (c, { s with frames := s.frames.modify f (·.bind name c) })

/-- Binds a name to a value; the cell of a name that the frame binds already is kept. -/
def define (f : FrameId) (name : String) (v : Value) (s : Store) : CellId × Store :=
  match s.ownCell? f name with
  | some c => (c, s.setCell c v)
  | none =>
    let (c, s) := s.newCell v
    (c, { s with frames := s.frames.modify f (·.bind name c) })

def bindNew (f : FrameId) (name : String) (v : Value) (s : Store) : Store :=
  { (s.newCell v).2 with frames := s.frames.modify f (·.bind name s.cells.size) }

theorem declare_eq (s : Store) (f : FrameId) (name : String) :
    s.declare f name = (s.cells.size, s.bindNew f name .absent) :=
  rfl

section Define

variable {s : Store} {f : FrameId} {name : String} {v : Value}

theorem define_of_eq_some {c : CellId} (hc : s.ownCell? f name = some c) :
    s.define f name v = (c, s.setCell c v) := by
  simp only [define, hc]

theorem define_of_eq_none (hc : s.ownCell? f name = none) :
    s.define f name v = (s.cells.size, s.bindNew f name v) := by
  simp only [define, hc]
  rfl

theorem findCell?_of_ownCell? {c : CellId} (hc : s.ownCell? f name = some c) :
    s.findCell? f name = some c := by
  rw [findCell?, hc]

end Define

/-- Binding a name in one frame does to the other frames nothing. -/
theorem of_frames_bind {s : Store} {f g : FrameId} {name : String} {c : CellId} {frame' : Frame}
    (h : (s.frames.modify f (·.bind name c))[g]? = some frame') :
    ∃ frame, s.frames[g]? = some frame ∧ (frame' = frame ∨ g = f ∧ frame' = frame.bind name c) := by
  simp only [Array.getElem?_modify] at h
  split at h
  · next heq =>
    obtain ⟨frame, hframe, rfl⟩ := Option.map_eq_some_iff.1 h
    exact ⟨frame, hframe, .inr ⟨heq.symm, rfl⟩⟩
  · exact ⟨frame', h, .inl rfl⟩

@[simp] theorem closures_define (s : Store) (f : FrameId) (name : String) (v : Value) :
    (s.define f name v).2.closures = s.closures := by
  unfold define
  split <;> rfl

def lookup (s : Store) (f : FrameId) (name : String) : Except Fault Value :=
  match s.findCell? f name with
  | some c =>
    match s.cell c with
    | .absent => .error (.unbound (.uninitialised name))
    | v => .ok v
  | none => .error (.unbound (.read name))

/-- Names are found in a frame and in those that are older, and nowhere else. -/
theorem findCell?_congr_of_le {s s' : Store} {f : FrameId}
    (hframes : ∀ g ≤ f, s'.frames[g]? = s.frames[g]?) (name : String) :
    s'.findCell? f name = s.findCell? f name := by
  induction f using Nat.strongRecOn with
  | ind f ih =>
    have hown : s'.ownCell? f name = s.ownCell? f name := by
      simp only [ownCell?, hframes f (Nat.le_refl f)]
    have houter : s'.outer? f = s.outer? f := by
      simp only [outer?, hframes f (Nat.le_refl f)]
    conv => lhs; rw [findCell?, hown, houter]
    conv => rhs; rw [findCell?]
    split
    · rfl
    · split
      · next g hlt _ =>
        exact ih g hlt fun h hle => hframes h (Nat.le_trans hle (Nat.le_of_lt hlt))
      · rfl

theorem findCell?_congr {s s' : Store} (hframes : s'.frames = s.frames) (f : FrameId)
    (name : String) : s'.findCell? f name = s.findCell? f name :=
  findCell?_congr_of_le (fun g _ => by rw [hframes]) name

theorem lookup_of_findCell? {s : Store} {f : FrameId} {name : String} {c : CellId} {v : Value}
    (hc : s.findCell? f name = some c) (hcell : s.cell c = v) (hv : v ≠ .absent) :
    s.lookup f name = .ok v := by
  simp only [lookup, hc]
  split
  · next habsent => exact absurd (hcell.symm.trans habsent) hv
  · rw [hcell]

theorem lookup_congr {s s' : Store} (hframes : s'.frames = s.frames) (hcells : s'.cells = s.cells)
    (f : FrameId) (name : String) : s'.lookup f name = s.lookup f name := by
  have hcell : ∀ c, s'.cell c = s.cell c := fun c => by simp only [cell, hcells]
  simp only [lookup, findCell?_congr hframes, hcell]

/-- Keys with their values, each key once: where it stands first, with the value it has last. -/
def distinctKeys (pairs : List (Value × Value)) : List (Value × Value) :=
  pairs.foldl
    (fun kept (key, v) =>
      if kept.any (·.1.equalAtoms key) then
        kept.map fun (k, w) => if k.equalAtoms key then (k, v) else (k, w)
      else kept ++ [(key, v)])
    []

end Keel.Store
