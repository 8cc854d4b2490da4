import Keel.Proofs.LetForms.Records
import Keel.Proofs.Simulation.Evaluation

/-! # One more closure

A store may have one more closure than another one, which nothing in it refers to.
The closures that come after it have other numbers then. Evaluation cannot tell
the two stores apart.
-/

namespace Keel

/-- The numbers of closures where there is one more, with the number `k`. -/
def past (k id : Nat) : Nat :=
  if id < k then id else id + 1

theorem past_of_lt {k id : Nat} (h : id < k) : past k id = id :=
  if_pos h

theorem past_of_le {k id : Nat} (h : k ≤ id) : past k id = id + 1 :=
  if_neg (Nat.not_lt.2 h)

theorem past_ne (k id : Nat) : past k id ≠ k := by
  unfold past
  split <;> omega

theorem past_injective (k : Nat) : Function.Injective (past k) := by
  intro id id' h
  unfold past at h
  split at h <;> split at h <;> omega

namespace Value

variable {k : Nat}

theorem rename_past {v : Value} (h : v.isRecorded k = true) : v.rename (past k) = v := by
  induction v with
  | pair id car cdr ihcar ihcdr =>
    obtain ⟨hcar, hcdr⟩ := isRecorded_pair.1 h
    rw [rename, ihcar hcar, ihcdr hcdr]
  | closure id => rw [rename, past_of_lt (of_decide_eq_true h)]
  | _ => rfl

theorem map_rename_past {items : List Value} (h : ∀ x ∈ items, x.isRecorded k = true) :
    items.map (rename (past k)) = items :=
  (List.map_congr_left fun x hx => rename_past (h x hx)).trans items.map_id

end Value

namespace Store

variable {s t : Store} {k : Nat} {extra : Closure} {f : FrameId} {name : String}

structure Inserted (k : Nat) (extra : Closure) (s t : Store) : Prop where
  le : k ≤ s.closures.size
  frames : t.frames = s.frames
  nextId : t.nextId = s.nextId
  cells : t.cells = s.cells.map (·.rename (past k))
  size : t.closures.size = s.closures.size + 1
  extra : t.closures[k]? = some extra
  closures : ∀ id, t.closures[past k id]? = s.closures[id]?.map (·.rename (past k))

/-- A new closure is one more, and nothing refers to it. -/
theorem Complete.inserted (h : s.Complete) (c : Closure) :
    Inserted s.closures.size c s (s.newClosure c).2 where
  le := Nat.le_refl _
  frames := rfl
  nextId := rfl
  cells := by
    refine Array.ext_getElem? fun i => ?_
    rw [Array.getElem?_map]
    cases hv : s.cells[i]? with
    | none => exact hv
    | some v =>
      rw [Option.map_some, Value.rename_past (h.cells hv)]
      exact hv
  size := Array.size_push ..
  extra := Array.getElem?_push_size
  closures id := by
    rcases Nat.lt_or_ge id s.closures.size with hlt | hge
    · have hid := Array.getElem?_eq_getElem hlt
      have hsame : s.closures[id].rename (past s.closures.size) = s.closures[id] := by
        rw [Closure.rename, Value.map_rename_past (h.formals hid),
          Value.map_rename_past (h.body hid)]
      rw [past_of_lt hlt, hid, Option.map_some, hsame, Store.newClosure, Array.getElem?_push_lt hlt]
    · rw [past_of_le hge, Array.getElem?_eq_none hge, Store.newClosure]
      exact Array.getElem?_eq_none (by rw [Array.size_push]; omega)

namespace Inserted

variable (h : Inserted k extra s t)
include h

theorem renumber (id : Identity) :
    Inserted k extra { s with nextId := id } { t with nextId := id } :=
  ⟨h.le, h.frames, rfl, h.cells, h.size, h.extra, h.closures⟩

theorem newFrame (outer : Option FrameId) :
    Inserted k extra (s.newFrame outer).2 (t.newFrame outer).2 where
  le := h.le
  frames := by simp only [Store.newFrame, h.frames]
  nextId := h.nextId
  cells := h.cells
  size := h.size
  extra := h.extra
  closures := h.closures

theorem setCell (c : CellId) (v : Value) :
    Inserted k extra (s.setCell c v) (t.setCell c (v.rename (past k))) where
  le := h.le
  frames := h.frames
  nextId := h.nextId
  cells := by simp only [Store.setCell, h.cells, Array.map_setIfInBounds]
  size := h.size
  extra := h.extra
  closures := h.closures

theorem bindNew (f : FrameId) (name : String) (v : Value) :
    Inserted k extra (s.bindNew f name v) (t.bindNew f name (v.rename (past k))) where
  le := h.le
  frames := by simp only [Store.bindNew, h.frames, h.cells, Array.size_map]
  nextId := h.nextId
  cells := by simp only [Store.bindNew, newCell, h.cells, Array.map_push]
  size := h.size
  extra := h.extra
  closures := h.closures

theorem newClosure (c : Closure) :
    (t.newClosure (c.rename (past k))).1 = (s.newClosure c).1.rename (past k) ∧
      Inserted k extra (s.newClosure c).2 (t.newClosure (c.rename (past k))).2 := by
  have hnew : t.closures.size = past k s.closures.size := by rw [h.size, past_of_le h.le]
  refine ⟨congrArg Value.closure hnew, ?_⟩
  constructor
  case le => exact Nat.le_trans h.le (by simp [Store.newClosure])
  case frames => exact h.frames
  case nextId => exact h.nextId
  case cells => exact h.cells
  case size => simp only [Store.newClosure, Array.size_push, h.size]
  case extra =>
    have hne : k ≠ t.closures.size := hnew ▸ (past_ne k _).symm
    simpa only [Store.newClosure, Array.getElem?_push, if_neg hne] using h.extra
  case closures =>
    intro id
    simp only [Store.newClosure, Array.getElem?_push, hnew, (past_injective k).eq_iff]
    split
    · rfl
    · exact h.closures id

theorem nameClosure (v : Value) (name : String) :
    Inserted k extra (s.nameClosure v name) (t.nameClosure (v.rename (past k)) name) := by
  cases v with
  | closure id =>
    constructor
    case le => exact Nat.le_trans h.le (Nat.le_of_eq (s.closures_size_nameClosure ..).symm)
    case frames => exact h.frames
    case nextId => exact h.nextId
    case cells => exact h.cells
    case size => simp only [closures_size_nameClosure, h.size]
    case extra =>
      simpa only [Value.rename, Store.nameClosure, Array.getElem?_modify, if_neg (past_ne k id)]
        using h.extra
    case closures =>
      intro id'
      simp only [Value.rename, Store.nameClosure, Array.getElem?_modify, (past_injective k).eq_iff,
        h.closures]
      split
      · cases s.closures[id']? <;> rfl
      · rfl
  | _ => exact h

theorem lookup (f : FrameId) (name : String) :
    t.lookup f name = (s.lookup f name).map (·.rename (past k)) := by
  unfold Store.lookup
  rw [findCell?_congr h.frames]
  cases hc : s.findCell? f name with
  | none => rfl
  | some c =>
    have hcell : t.cell c = (s.cell c).rename (past k) := by
      simp only [cell, Array.getD_eq_getD_getElem?, h.cells, Array.getElem?_map]
      cases s.cells[c]? <;> rfl
    simp only [hcell]
    cases s.cell c <;> rfl

end Inserted

end Store

namespace Simulation

/-- The second run has one more closure, which it does not use. -/
def insertion (k : Nat) (extra : Closure) : Simulation where
  Related := Store.Inserted k extra
  number := past k
  Code _ := True
  Free _ := True

theorem lawful_insertion (k : Nat) (extra : Closure) : (insertion k extra).Lawful where
  injective := past_injective k
  code_car _ := trivial
  code_cdr _ := trivial
  frames hst := hst.frames
  nextId hst := hst.nextId
  closure id hst := hst.closures id
  record _ _ := ⟨fun _ _ => trivial, fun _ _ => trivial⟩
  lookup f hst _ := hst.lookup f _
  found _ _ _ := trivial
  renumber id hst := hst.renumber id
  setCell v hst _ := hst.setCell _ v
  bindNew f v hst _ := ⟨⟨trivial, by rw [hst.cells, Array.size_map]⟩, hst.bindNew f _ v⟩
  newFrame outer hst := hst.newFrame outer
  newClosure {s t c} hst _ _ := hst.newClosure c
  nameClosure v name hst := hst.nameClosure v name

end Simulation

end Keel
