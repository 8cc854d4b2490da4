import Keel.Proofs.Bytes.Text
import Keel.Proofs.Initialisation.Store
import Keel.Store.Basis

/-! # Stores named by bytes

A store in which all names are texts of bytes: those that frames bind, those of
closures, and those of the symbols in cells and in code. Every operation on the
store that is given only such names keeps it so.
-/

namespace Keel

structure Closure.OfBytes (c : Closure) : Prop where
  formals : ∀ v ∈ c.formals, v.OfBytes
  body : ∀ v ∈ c.body, v.OfBytes
  name : ∀ {s : String}, c.name = some s → Text.OfBytes s

namespace Store

variable {s s' : Store} {v : Value} {name : String}

structure OfBytes (s : Store) : Prop where
  names : ∀ {f : FrameId} {frame : Frame} {b : String × CellId}, s.frames[f]? = some frame →
    b ∈ frame.bindings → Text.OfBytes b.1
  cells : ∀ {c : CellId} {v : Value}, s.cells[c]? = some v → v.OfBytes
  closures : ∀ {id : ClosureId} {c : Closure}, s.closures[id]? = some c → c.OfBytes

theorem ofBytes_empty : empty.OfBytes :=
  ⟨by simp [empty], by simp [empty], by simp [empty]⟩

namespace OfBytes

variable (h : s.OfBytes)
include h

theorem of_eq (hf : s'.frames = s.frames) (hcells : s'.cells = s.cells)
    (hc : s'.closures = s.closures) : s'.OfBytes where
  names hframe := h.names (hf ▸ hframe)
  cells hv := h.cells (hcells ▸ hv)
  closures hcl := h.closures (hc ▸ hcl)

theorem closureName {id : ClosureId} (hid : s.closureName id = some name) : Text.OfBytes name := by
  obtain ⟨c, hc, hname⟩ := Option.bind_eq_some_iff.1 hid
  exact (h.closures hc).name hname

theorem cell (c : CellId) : (s.cell c).OfBytes := by
  rw [Store.cell, Array.getD_eq_getD_getElem?]
  cases hc : s.cells[c]? with
  | none => exact trivial
  | some v => exact h.cells hc

theorem of_lookup_eq_ok {f : FrameId} (hv : s.lookup f name = .ok v) : v.OfBytes := by
  obtain ⟨c, -, rfl, -⟩ := lookup_eq_ok hv
  exact h.cell c

/-! ## Operations -/

theorem newFrame (outer : Option FrameId) : (s.newFrame outer).2.OfBytes where
  names {f frame b} hframe hb := by
    rcases of_frames_newFrame hframe with ⟨-, rfl⟩ | hold
    · exact nomatch hb
    · exact h.names hold hb
  cells := h.cells
  closures := h.closures

theorem newCell (hv : v.OfBytes) : (s.newCell v).2.OfBytes where
  names := h.names
  cells {c w} hw := by
    simp only [Store.newCell, Array.getElem?_push] at hw
    split at hw
    · exact Option.some.inj hw ▸ hv
    · exact h.cells hw
  closures := h.closures

theorem setCell (hv : v.OfBytes) (c : CellId) : (s.setCell c v).OfBytes where
  names := h.names
  cells {c' w} hw := by
    simp only [Store.setCell, Array.getElem?_setIfInBounds] at hw
    split at hw
    · split at hw
      · obtain rfl := Option.some.inj hw
        exact hv
      · cases hw
    · exact h.cells hw
  closures := h.closures

theorem bind (hname : Text.OfBytes name) (f : FrameId) (c : CellId) :
    OfBytes { s with frames := s.frames.modify f (·.bind name c) } where
  names {g frame' b} hframe' hb := by
    obtain ⟨frame, hframe, rfl | ⟨-, rfl⟩⟩ := of_frames_bind hframe'
    · exact h.names hframe hb
    · rcases Frame.mem_bindings_bind hb with rfl | hold
      · exact hname
      · exact h.names hframe hold
  cells := h.cells
  closures := h.closures

theorem declare (hname : Text.OfBytes name) (f : FrameId) : (s.declare f name).2.OfBytes :=
  (h.newCell (v := .absent) trivial).bind hname f _

theorem define (hname : Text.OfBytes name) (hv : v.OfBytes) (f : FrameId) :
    (s.define f name v).2.OfBytes := by
  unfold Store.define
  split
  · exact h.setCell hv _
  · exact (h.newCell hv).bind hname f _

theorem newClosure {c : Closure} (hc : c.OfBytes) : (s.newClosure c).2.OfBytes where
  names := h.names
  cells := h.cells
  closures {id c'} hcl := by
    rcases of_closures_newClosure hcl with rfl | hold
    · exact hc
    · exact h.closures hold

theorem nameClosure (hname : Text.OfBytes name) (v : Value) : (s.nameClosure v name).OfBytes where
  names hframe := h.names (frames_nameClosure s v name ▸ hframe)
  cells hv := h.cells (cells_nameClosure s v name ▸ hv)
  closures {id c'} hcl := by
    unfold Store.nameClosure at hcl
    split at hcl
    · simp only [Array.getElem?_modify] at hcl
      split at hcl
      · obtain ⟨c, hc, rfl⟩ := Option.map_eq_some_iff.1 hcl
        have hclosure := h.closures hc
        refine ⟨hclosure.formals, hclosure.body, fun {s'} hs' => ?_⟩
        rcases Option.or_eq_some_iff.1 hs' with hold | ⟨-, hnew⟩
        · exact hclosure.name hold
        · exact Option.some.inj hnew ▸ hname
      · exact h.closures hcl
    · exact h.closures hcl

theorem load {d : Datum} (hd : d.OfBytes) : (s.load d).2.OfBytes ∧ (s.load d).1.OfBytes :=
  ⟨h.of_eq rfl rfl rfl, Value.ofBytes_ofDatum hd s.nextId⟩

/-! ## The basis -/

theorem register (f : FrameId) : (s.register f).OfBytes := by
  have hempty : Text.OfBytes "" := by decide
  have hname : Text.OfBytes "empty-symbol" := by decide
  refine register_induction (fun s id p hs => ?_) (fun s hs => ?_) (h.of_eq rfl rfl rfl)
  · exact hs.define (v := .primitive id p) p.ofBytes_name trivial f
  · exact hs.define (v := .symbol "") hname hempty f

end OfBytes

end Store

end Keel
