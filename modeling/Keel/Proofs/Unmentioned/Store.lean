import Keel.Proofs.Effect.Evaluation
import Keel.Proofs.Invariance

/-! # Cells out of sight

A cell is bound under one name only, so what does not deal with a name has no way
to the cells that are bound to it. Two stores may differ in those cells, and
operations under other names have the same effect on both.
-/

namespace Keel

theorem Frame.mem_bindings_bind_of_ne {frame : Frame} {name : String} {c : CellId}
    {b : String × CellId} (hb : b ∈ frame.bindings) (hne : b.1 ≠ name) :
    b ∈ (frame.bind name c).bindings := by
  unfold Frame.bind
  split
  · exact List.mem_map.2 ⟨b, hb, by simp only [if_neg hne]⟩
  · exact List.mem_append_left _ hb

namespace Store

variable {s s' s'' t : Store} {f : FrameId} {name x : String} {c d : CellId} {v : Value}

def BoundTo (s : Store) (name : String) (c : CellId) : Prop :=
  ∃ (f : FrameId) (frame : Frame), s.frames[f]? = some frame ∧ (name, c) ∈ frame.bindings

theorem boundTo_congr (hframes : s'.frames = s.frames) :
    s'.BoundTo name c ↔ s.BoundTo name c := by
  unfold BoundTo
  rw [hframes]

namespace BoundTo

theorem of_ownCell? (h : s.ownCell? f name = some c) : s.BoundTo name c := by
  obtain ⟨frame, hframe, hc⟩ := Option.bind_eq_some_iff.1 h
  exact ⟨f, frame, hframe, Frame.mem_bindings_of_cell? hc⟩

theorem of_findCell? (h : s.findCell? f name = some c) : s.BoundTo name c := by
  fun_induction s.findCell? f name with
  | case1 f c' hown =>
    obtain rfl := Option.some.inj h
    exact .of_ownCell? hown
  | case2 f _ g _ _ ih => exact ih h
  | case3 => cases h

theorem of_newFrame {outer : Option FrameId} (h : (s.newFrame outer).2.BoundTo name c) :
    s.BoundTo name c := by
  obtain ⟨f, frame, hframe, hmem⟩ := h
  rcases of_frames_newFrame hframe with ⟨-, rfl⟩ | hold
  · exact nomatch hmem
  · exact ⟨f, frame, hold, hmem⟩

theorem newFrame (h : s.BoundTo name c) (outer : Option FrameId) :
    (s.newFrame outer).2.BoundTo name c := by
  obtain ⟨f, frame, hframe, hmem⟩ := h
  have hne : f ≠ s.frames.size := Nat.ne_of_lt (Array.getElem?_eq_some_iff.1 hframe).1
  refine ⟨f, frame, ?_, hmem⟩
  simpa only [Store.newFrame, Array.getElem?_push, if_neg hne] using hframe

theorem of_bindNew (h : (s.bindNew f x v).BoundTo name c) :
    s.BoundTo name c ∨ (name = x ∧ c = s.cells.size) := by
  obtain ⟨g, frame', hframe', hmem⟩ := h
  obtain ⟨frame, hframe, rfl | ⟨-, rfl⟩⟩ := of_frames_bind hframe'
  · exact .inl ⟨g, _, hframe, hmem⟩
  · rcases Frame.mem_bindings_bind hmem with hnew | hold
    · exact .inr (Prod.mk.inj hnew)
    · exact .inl ⟨g, frame, hframe, hold⟩

theorem bindNew (h : s.BoundTo name c) (hne : name ≠ x) (f : FrameId) (v : Value) :
    (s.bindNew f x v).BoundTo name c := by
  obtain ⟨g, frame, hframe, hmem⟩ := h
  by_cases hfg : f = g
  · refine ⟨g, frame.bind x s.cells.size, ?_, Frame.mem_bindings_bind_of_ne hmem hne⟩
    simp only [Store.bindNew, Array.getElem?_modify, if_pos hfg, hframe, Option.map_some]
  · refine ⟨g, frame, ?_, hmem⟩
    simpa only [Store.bindNew, Array.getElem?_modify, if_neg hfg] using hframe

end BoundTo

/-! ## One name for each cell -/

/-- Frames bind cells that exist, and no cell is bound under two names. -/
structure Named (s : Store) : Prop where
  bound : ∀ {name c}, s.BoundTo name c → c < s.cells.size
  once : ∀ {name name' c}, s.BoundTo name c → s.BoundTo name' c → name = name'

namespace Named

theorem empty : Store.empty.Named where
  bound := by
    rintro name c ⟨f, frame, hframe, -⟩
    simp [Store.empty] at hframe
  once := by
    rintro name name' c ⟨f, frame, hframe, -⟩
    simp [Store.empty] at hframe

variable (h : s.Named)
include h

theorem of_boundTo (hle : s.cells.size ≤ s'.cells.size)
    (hbound : ∀ {name c}, s'.BoundTo name c → s.BoundTo name c) : s'.Named where
  bound hb := Nat.lt_of_lt_of_le (h.bound (hbound hb)) hle
  once hb hb' := h.once (hbound hb) (hbound hb')

theorem of_eq (hframes : s'.frames = s.frames) (hle : s.cells.size ≤ s'.cells.size) : s'.Named :=
  h.of_boundTo hle (boundTo_congr hframes).1

theorem newFrame (outer : Option FrameId) : (s.newFrame outer).2.Named :=
  h.of_boundTo (Nat.le_refl _) BoundTo.of_newFrame

theorem setCell (c : CellId) (v : Value) : (s.setCell c v).Named :=
  h.of_eq rfl (by simp [Store.setCell])

theorem bindNew (f : FrameId) (name : String) (v : Value) : (s.bindNew f name v).Named where
  bound hb := by
    have hsize : (s.bindNew f name v).cells.size = s.cells.size + 1 := Array.size_push ..
    rcases hb.of_bindNew with hold | ⟨-, rfl⟩
    · exact hsize ▸ Nat.lt_succ_of_lt (h.bound hold)
    · exact hsize ▸ Nat.lt_succ_self _
  once hb hb' := by
    rcases hb.of_bindNew with hold | ⟨rfl, rfl⟩
    · rcases hb'.of_bindNew with hold' | ⟨rfl, rfl⟩
      · exact h.once hold hold'
      · exact absurd (h.bound hold) (Nat.lt_irrefl _)
    · rcases hb'.of_bindNew with hold' | ⟨rfl, -⟩
      · exact absurd (h.bound hold') (Nat.lt_irrefl _)
      · rfl

theorem define (f : FrameId) (name : String) (v : Value) : (s.define f name v).2.Named := by
  cases hown : s.ownCell? f name with
  | some c =>
    rw [define_of_eq_some hown]
    exact h.setCell c v
  | none =>
    rw [define_of_eq_none hown]
    exact h.bindNew f name v

end Named

/-! ## Steps under other names -/

/-- The second store binds the name as the first one does, to cells that have kept their values. -/
structure Spares (x : String) (s s' : Store) : Prop where
  named : s'.Named
  bound : ∀ {c}, s'.BoundTo x c ↔ s.BoundTo x c
  cells : ∀ {c}, s.BoundTo x c → s'.cells[c]? = s.cells[c]?

namespace Spares

theorem refl (h : s.Named) : s.Spares x s :=
  ⟨h, Iff.rfl, fun _ => rfl⟩

theorem trans (h : s.Spares x s') (h' : s'.Spares x s'') : s.Spares x s'' where
  named := h'.named
  bound := h'.bound.trans h.bound
  cells hb := (h'.cells (h.bound.2 hb)).trans (h.cells hb)

theorem of_eq (h : s.Named) (hframes : s'.frames = s.frames) (hcells : s'.cells = s.cells) :
    s.Spares x s' where
  named := h.of_eq hframes (Nat.le_of_eq (by rw [hcells]))
  bound := boundTo_congr hframes
  cells _ := by rw [hcells]

theorem newFrame (h : s.Named) (outer : Option FrameId) : s.Spares x (s.newFrame outer).2 where
  named := h.newFrame outer
  bound := ⟨BoundTo.of_newFrame, fun hb => hb.newFrame outer⟩
  cells _ := rfl

theorem setCell (h : s.Named) (hc : ¬ s.BoundTo x c) (v : Value) :
    s.Spares x (s.setCell c v) where
  named := h.setCell c v
  bound := boundTo_congr rfl
  cells {d} hd := by
    have hne : c ≠ d := by
      rintro rfl
      exact hc hd
    simp only [Store.setCell, Array.getElem?_setIfInBounds_ne hne]

theorem bindNew (h : s.Named) (hne : name ≠ x) (f : FrameId) (v : Value) :
    s.Spares x (s.bindNew f name v) where
  named := h.bindNew f name v
  bound := by
    refine ⟨fun hb => ?_, fun hb => hb.bindNew hne.symm f v⟩
    exact hb.of_bindNew.resolve_right fun ⟨heq, _⟩ => hne heq.symm
  cells {c} hc := by
    have hold : c ≠ s.cells.size := Nat.ne_of_lt (h.bound hc)
    simp only [Store.bindNew, newCell, Array.getElem?_push, if_neg hold]

end Spares

/-! ## Two stores -/

/-- The stores are identical but for the values of the cells that are bound to the name. -/
structure AlikeBut (x : String) (s t : Store) : Prop where
  frames : t.frames = s.frames
  closures : t.closures = s.closures
  nextId : t.nextId = s.nextId
  size : t.cells.size = s.cells.size
  cells : ∀ {c}, ¬ s.BoundTo x c → t.cells[c]? = s.cells[c]?

theorem BoundTo.alikeBut_setCell (h : s.BoundTo x c) (v : Value) : s.AlikeBut x (s.setCell c v) where
  frames := rfl
  closures := rfl
  nextId := rfl
  size := by simp [setCell]
  cells {d} hd := by
    have hne : c ≠ d := by
      rintro rfl
      exact hd h
    simp only [setCell, Array.getElem?_setIfInBounds_ne hne]

namespace AlikeBut

variable (h : s.AlikeBut x t)
include h

theorem named (hs : s.Named) : t.Named :=
  hs.of_eq h.frames (Nat.le_of_eq h.size.symm)

theorem boundTo_iff : t.BoundTo name c ↔ s.BoundTo name c :=
  boundTo_congr h.frames

theorem lookup (hs : s.Named) (hne : name ≠ x) (f : FrameId) :
    t.lookup f name = s.lookup f name := by
  unfold Store.lookup
  rw [findCell?_congr h.frames]
  cases hc : s.findCell? f name with
  | none => rfl
  | some c =>
    have hcell : t.cells[c]? = s.cells[c]? :=
      h.cells fun hb => hne (hs.once (.of_findCell? hc) hb)
    have hsame : t.cell c = s.cell c := by
      simp only [cell, Array.getD_eq_getD_getElem?, hcell]
    simp only [hsame]

theorem renumber (id : Identity) : AlikeBut x { s with nextId := id } { t with nextId := id } :=
  ⟨h.frames, h.closures, rfl, h.size, h.cells⟩

theorem newFrame (outer : Option FrameId) :
    AlikeBut x (s.newFrame outer).2 (t.newFrame outer).2 where
  frames := by simp only [Store.newFrame, h.frames]
  closures := h.closures
  nextId := h.nextId
  size := h.size
  cells hc := h.cells fun hb => hc (hb.newFrame outer)

theorem setCell (c : CellId) (v : Value) : AlikeBut x (s.setCell c v) (t.setCell c v) where
  frames := h.frames
  closures := h.closures
  nextId := h.nextId
  size := by simp only [Store.setCell, Array.size_setIfInBounds, h.size]
  cells {d} hd := by
    have hsame := h.cells hd
    simp only [Store.setCell, Array.getElem?_setIfInBounds, h.size, hsame]

theorem bindNew (hne : name ≠ x) (f : FrameId) (v : Value) :
    AlikeBut x (s.bindNew f name v) (t.bindNew f name v) where
  frames := by simp only [Store.bindNew, h.frames, h.size]
  closures := h.closures
  nextId := h.nextId
  size := by simp only [Store.bindNew, newCell, Array.size_push, h.size]
  cells {d} hd := by
    have hsame := h.cells fun hb => hd (hb.bindNew hne.symm f v)
    simp only [Store.bindNew, newCell, Array.getElem?_push, h.size, hsame]

theorem of_closures {s' t' : Store} (hs : s'.frames = s.frames) (hs' : s'.cells = s.cells)
    (hid : s'.nextId = s.nextId) (ht : t'.frames = t.frames) (ht' : t'.cells = t.cells)
    (hid' : t'.nextId = t.nextId) (hclosures : t'.closures = s'.closures) : s'.AlikeBut x t' where
  frames := by rw [ht, hs, h.frames]
  closures := hclosures
  nextId := by rw [hid', hid, h.nextId]
  size := by rw [ht', hs', h.size]
  cells hc := by
    rw [ht', hs']
    exact h.cells fun hb => hc ((boundTo_congr hs).2 hb)

theorem newClosure (c : Closure) : AlikeBut x (s.newClosure c).2 (t.newClosure c).2 :=
  h.of_closures rfl rfl rfl rfl rfl rfl (by simp only [Store.newClosure, h.closures])

theorem nameClosure (v : Value) (name : String) :
    AlikeBut x (s.nameClosure v name) (t.nameClosure v name) := by
  unfold Store.nameClosure
  split
  · exact h.of_closures rfl rfl rfl rfl rfl rfl (by simp only [h.closures])
  · exact h

end AlikeBut

end Store

end Keel
