import Keel.Store.Binding

/-! # Cells and their initialisation

The mark of a cell that is not initialised is a value of the host that no Keel
value contains. So a cell that holds a Keel value is initialised, and writing
Keel values into cells cannot undo that.
-/

namespace Keel

/-- A value that neither is nor contains a value of the host. -/
def Value.isKeel : Value → Bool
  | .pair _ car cdr => car.isKeel && cdr.isKeel
  | .absent | .text _ => false
  | _ => true

theorem Value.ne_absent_of_isKeel {v : Value} (h : v.isKeel = true) : v ≠ .absent := by
  rintro rfl
  exact nomatch h

theorem Value.isKeel_listTo {items : List Value} {tail : Value} (id : Identity)
    (hi : ∀ x ∈ items, x.isKeel = true) (ht : tail.isKeel = true) :
    (listTo id items tail).isKeel = true := by
  induction items generalizing id with
  | nil => exact ht
  | cons item items ih =>
    obtain ⟨hitem, hitems⟩ := List.forall_mem_cons.1 hi
    simp only [listTo, isKeel, hitem, ih (id + 1) hitems, Bool.and_self]

namespace Frame

theorem mem_bindings_bind {frame : Frame} {name : String} {c : CellId} {b : String × CellId}
    (h : b ∈ (frame.bind name c).bindings) : b = (name, c) ∨ b ∈ frame.bindings := by
  unfold Frame.bind at h
  split at h
  · obtain ⟨⟨n, c'⟩, hmem, rfl⟩ := List.mem_map.1 h
    by_cases hn : n = name
    · simp [hn]
    · simp only [if_neg hn]
      exact .inr hmem
  · rcases List.mem_append.1 h with h | h
    · exact .inr h
    · obtain rfl := List.mem_singleton.1 h
      exact .inl rfl

theorem mem_bindings_of_cell? {frame : Frame} {name : String} {c : CellId}
    (h : frame.cell? name = some c) : (name, c) ∈ frame.bindings := by
  obtain ⟨before, after, hb, -⟩ := List.lookup_eq_some_iff.1 h
  simp [hb]

end Frame

namespace Store

variable {s s' s'' : Store} {f : FrameId} {name : String} {c : CellId} {v : Value}

def Initialised (s : Store) (c : CellId) : Prop :=
  ∃ v, s.cells[c]? = some v ∧ v ≠ .absent

def Uninitialised (s : Store) (c : CellId) : Prop :=
  s.cells[c]? = some .absent

theorem Initialised.not_uninitialised (h : s.Initialised c) : ¬ s.Uninitialised c := by
  obtain ⟨v, hv, hne⟩ := h
  intro hu
  exact hne (Option.some.inj (hv.symm.trans hu))

theorem Uninitialised.lt_size (h : s.Uninitialised c) : c < s.cells.size :=
  (Array.getElem?_eq_some_iff.1 h).1

theorem cell_eq (h : c < s.cells.size) : s.cells[c]? = some (s.cell c) := by
  simp [cell, Array.getD, h]

/-- Only Keel values are stored, but for the marks of cells, and names are bound to cells that
exist. -/
structure HoldsKeel (s : Store) : Prop where
  cells : ∀ {c : CellId} {v : Value}, s.cells[c]? = some v → v ≠ .absent → v.isKeel = true
  closures : ∀ {id : ClosureId} {c : Closure}, s.closures[id]? = some c →
    (∀ x ∈ c.formals, x.isKeel = true) ∧ ∀ x ∈ c.body, x.isKeel = true
  bound : ∀ {f : FrameId} {frame : Frame} {b : String × CellId}, s.frames[f]? = some frame →
    b ∈ frame.bindings → b.2 < s.cells.size

theorem holdsKeel_empty : empty.HoldsKeel :=
  ⟨by simp [empty], by simp [empty], by simp [empty]⟩

/-- Cells may become initialised, but not the other way round. -/
structure SettlesInto (s s' : Store) : Prop where
  kept : ∀ {c : CellId}, s.Initialised c → s'.Initialised c
  settled : ∀ {c : CellId}, s'.Uninitialised c → s.Uninitialised c
  size_le : s.cells.size ≤ s'.cells.size

namespace SettlesInto

theorem of_cells (h : s'.cells = s.cells) : s.SettlesInto s' where
  kept hc := by simpa only [Initialised, h] using hc
  settled hc := by simpa only [Uninitialised, h] using hc
  size_le := Nat.le_of_eq (by rw [h])

theorem refl (s : Store) : s.SettlesInto s :=
  of_cells rfl

theorem trans (h : s.SettlesInto s') (h' : s'.SettlesInto s'') : s.SettlesInto s'' :=
  ⟨fun hc => h'.kept (h.kept hc), fun hc => h.settled (h'.settled hc),
    Nat.le_trans h.size_le h'.size_le⟩

end SettlesInto

/-! ## Looking names up -/

theorem lookup_eq_ok (h : s.lookup f name = .ok v) :
    ∃ c, s.findCell? f name = some c ∧ s.cell c = v ∧ v ≠ .absent := by
  unfold lookup at h
  split at h
  · next c hc =>
    split at h
    · cases h
    · next hne =>
      obtain rfl := Except.ok.inj h
      exact ⟨c, hc, rfl, hne⟩
  · cases h

theorem lookup_eq_error {fault : Fault} (h : s.lookup f name = .error fault) :
    fault = .unbound (.read name) ∨
      fault = .unbound (.uninitialised name) ∧
        ∃ c, s.findCell? f name = some c ∧ s.cell c = .absent := by
  unfold lookup at h
  split at h
  · next c hc =>
    split at h
    · next hv => exact .inr ⟨(Except.error.inj h).symm, c, hc, hv⟩
    · cases h
  · exact .inl (Except.error.inj h).symm

namespace HoldsKeel

variable (h : s.HoldsKeel)
include h

theorem lt_size_of_ownCell? (ho : s.ownCell? f name = some c) : c < s.cells.size := by
  obtain ⟨frame, hframe, hc⟩ := Option.bind_eq_some_iff.1 ho
  exact h.bound hframe (Frame.mem_bindings_of_cell? hc)

theorem lt_size_of_findCell? (hc : s.findCell? f name = some c) : c < s.cells.size := by
  fun_induction s.findCell? f name with
  | case1 f c' ho =>
    obtain rfl := Option.some.inj hc
    exact h.lt_size_of_ownCell? ho
  | case2 f _ g _ _ ih => exact ih hc
  | case3 => exact nomatch hc

/-! ## Operations -/

theorem of_eq (hf : s'.frames = s.frames) (hc : s'.closures = s.closures)
    (hcells : s'.cells = s.cells) : s'.HoldsKeel where
  cells hv := h.cells (hcells ▸ hv)
  closures hcl := h.closures (hc ▸ hcl)
  bound hframe hb := by
    rw [hcells]
    exact h.bound (hf ▸ hframe) hb

theorem setCell (hv : v.isKeel = true) (c : CellId) : (s.setCell c v).HoldsKeel where
  cells {c' v'} hv' hne := by
    simp only [Store.setCell, Array.getElem?_setIfInBounds] at hv'
    split at hv'
    · split at hv'
      · obtain rfl := Option.some.inj hv'
        exact hv
      · exact nomatch hv'
    · exact h.cells hv' hne
  closures := h.closures
  bound hframe hb := by
    have hlt := h.bound hframe hb
    simpa only [Store.setCell, Array.size_setIfInBounds] using hlt

theorem newCell (hv : v = .absent ∨ v.isKeel = true) : (s.newCell v).2.HoldsKeel where
  cells {c' v'} hv' hne := by
    simp only [Store.newCell, Array.getElem?_push] at hv'
    split at hv'
    · obtain rfl := Option.some.inj hv'
      exact hv.resolve_left hne
    · exact h.cells hv' hne
  closures := h.closures
  bound hframe hb := by
    have hlt := h.bound hframe hb
    simp only [Store.newCell, Array.size_push]
    exact Nat.lt_succ_of_lt hlt

theorem bind (hc : c < s.cells.size) (f : FrameId) (name : String) :
    HoldsKeel { s with frames := s.frames.modify f (·.bind name c) } where
  cells := h.cells
  closures := h.closures
  bound {g frame' b} hframe' hb := by
    obtain ⟨frame, hframe, rfl | ⟨-, rfl⟩⟩ := of_frames_bind hframe'
    · exact h.bound hframe hb
    · rcases Frame.mem_bindings_bind hb with heq | hmem
      · rw [heq]
        exact hc
      · exact h.bound hframe hmem

theorem declare (f : FrameId) (name : String) : (s.declare f name).2.HoldsKeel :=
  (h.newCell (.inl rfl)).bind (by simp [Store.newCell]) f name

theorem define (hv : v.isKeel = true) (f : FrameId) (name : String) :
    (s.define f name v).2.HoldsKeel := by
  unfold Store.define
  split
  · exact h.setCell hv _
  · exact (h.newCell (.inr hv)).bind (by simp [Store.newCell]) f name

theorem newFrame (outer : Option FrameId) : (s.newFrame outer).2.HoldsKeel where
  cells := h.cells
  closures := h.closures
  bound {g frame b} hframe hb := by
    rcases of_frames_newFrame hframe with ⟨-, rfl⟩ | hold
    · exact nomatch hb
    · exact h.bound hold hb

theorem newClosure {c : Closure} (hc : (∀ x ∈ c.formals, x.isKeel = true) ∧
    ∀ x ∈ c.body, x.isKeel = true) : (s.newClosure c).2.HoldsKeel where
  cells := h.cells
  closures {id c'} hcl := by
    rcases of_closures_newClosure hcl with rfl | hold
    · exact hc
    · exact h.closures hold
  bound := h.bound

theorem nameClosure (v : Value) (name : String) : (s.nameClosure v name).HoldsKeel where
  cells hv := h.cells (by rwa [cells_nameClosure] at hv)
  closures hcl := by
    obtain ⟨c, name', hc, rfl⟩ := of_closures_nameClosure hcl
    exact h.closures (c := c) hc
  bound hframe hb := by
    rw [frames_nameClosure] at hframe
    rw [cells_nameClosure]
    exact h.bound hframe hb

end HoldsKeel

theorem initialised_setCell (hc : c < s.cells.size) (hv : v ≠ .absent) :
    (s.setCell c v).Initialised c :=
  ⟨v, by simp [setCell, hc], hv⟩

theorem settlesInto_setCell (hv : v ≠ .absent) (c : CellId) : s.SettlesInto (s.setCell c v) where
  kept {c'} := by
    rintro ⟨w, hw, hne⟩
    by_cases heq : c = c'
    · subst heq
      exact initialised_setCell (Array.getElem?_eq_some_iff.1 hw).1 hv
    · exact ⟨w, by simpa [setCell, heq] using hw, hne⟩
  settled {c'} hu := by
    simp only [Uninitialised, setCell, Array.getElem?_setIfInBounds] at hu
    split at hu
    · split at hu
      · exact absurd (Option.some.inj hu) hv
      · exact nomatch hu
    · exact hu
  size_le := by simp [setCell]

theorem Initialised.newCell (h : s.Initialised c) (v : Value) : (s.newCell v).2.Initialised c := by
  obtain ⟨w, hw, hne⟩ := h
  have hlt := (Array.getElem?_eq_some_iff.1 hw).1
  exact ⟨w, by simpa [Store.newCell, Array.getElem?_push, Nat.ne_of_lt hlt] using hw, hne⟩

theorem Uninitialised.of_newCell (h : (s.newCell v).2.Uninitialised c) :
    s.Uninitialised c ∨ c = s.cells.size ∧ v = .absent := by
  simp only [Uninitialised, Store.newCell, Array.getElem?_push] at h
  split at h
  · next heq => exact .inr ⟨heq, Option.some.inj h⟩
  · exact .inl h

structure DeclaresInto (s s' : Store) : Prop where
  kept : ∀ {c : CellId}, s.Initialised c → s'.Initialised c
  declared : ∀ {c : CellId}, s'.Uninitialised c → s.Uninitialised c ∨ s.cells.size ≤ c
  size_le : s.cells.size ≤ s'.cells.size

theorem DeclaresInto.declare (h : s.DeclaresInto s') (f : FrameId) (name : String) :
    s.DeclaresInto (s'.declare f name).2 where
  kept hc := (h.kept hc).newCell .absent
  declared {c} hc := by
    have hnew : (s'.newCell .absent).2.Uninitialised c := hc
    rcases hnew.of_newCell with hold | ⟨rfl, -⟩
    · exact h.declared hold
    · exact .inr h.size_le
  size_le := by
    have hlt : s'.cells.size < (s'.declare f name).2.cells.size := by
      simp [Store.declare, Store.newCell]
    exact Nat.le_trans h.size_le (Nat.le_of_lt hlt)

theorem settlesInto_define (hv : v ≠ .absent) (f : FrameId) (name : String) :
    s.SettlesInto (s.define f name v).2 := by
  unfold define
  split
  · exact settlesInto_setCell hv _
  · exact ⟨fun hc => hc.newCell v, fun hu => hu.of_newCell.resolve_right fun hr => hv hr.2,
      by simp [newCell]⟩

end Store

end Keel
