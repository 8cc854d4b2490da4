import Keel.Proofs.Invariance

/-! # Closures and their records

A closure is the number of its record, and only evaluation makes closures. So a
value never refers to a record that is still to be made.
-/

namespace Keel

namespace Value

/-- The closures in the value are among the first `n` ones. -/
def isRecorded (n : Nat) : Value → Bool
  | .pair _ car cdr => car.isRecorded n && cdr.isRecorded n
  | .closure id => id < n
  | _ => true

theorem isRecorded_pair {n : Nat} {id : Identity} {car cdr : Value} :
    (Value.pair id car cdr).isRecorded n = true ↔
      car.isRecorded n = true ∧ cdr.isRecorded n = true :=
  Bool.and_eq_true_iff

theorem isRecorded_mono {n n' : Nat} {v : Value} (h : n ≤ n') (hv : v.isRecorded n = true) :
    v.isRecorded n' = true := by
  induction v with
  | pair id car cdr ihcar ihcdr =>
    obtain ⟨hcar, hcdr⟩ := isRecorded_pair.1 hv
    exact isRecorded_pair.2 ⟨ihcar hcar, ihcdr hcdr⟩
  | closure id => exact decide_eq_true (Nat.lt_of_lt_of_le (of_decide_eq_true hv) h)
  | _ => rfl

end Value

namespace Store

variable {s s' : Store} {v : Value}

def Records (s : Store) (v : Value) : Prop :=
  v.isRecorded s.closures.size = true

instance (s : Store) (v : Value) : Decidable (s.Records v) :=
  inferInstanceAs (Decidable (v.isRecorded s.closures.size = true))

/-- The records of the store are enough for everything in it. -/
structure Complete (s : Store) : Prop where
  cells : ∀ {c : CellId} {v : Value}, s.cells[c]? = some v → s.Records v
  formals : ∀ {id : ClosureId} {c : Closure}, s.closures[id]? = some c → ∀ x ∈ c.formals, s.Records x
  body : ∀ {id : ClosureId} {c : Closure}, s.closures[id]? = some c → ∀ x ∈ c.body, s.Records x

theorem Records.mono (hv : s.Records v) (hle : s.closures.size ≤ s'.closures.size) :
    s'.Records v :=
  Value.isRecorded_mono hle hv

theorem closures_size_nameClosure (s : Store) (v : Value) (name : String) :
    (s.nameClosure v name).closures.size = s.closures.size := by
  unfold nameClosure
  split
  · exact Array.size_modify
  · rfl

namespace Complete

theorem empty : Store.empty.Complete where
  cells h := by simp [Store.empty] at h
  formals h := by simp [Store.empty] at h
  body h := by simp [Store.empty] at h

variable (h : s.Complete)
include h

theorem of_cells (hsize : s'.closures.size = s.closures.size)
    (hclosures : ∀ {id : ClosureId} {c' : Closure}, s'.closures[id]? = some c' →
      ∃ c name, s.closures[id]? = some c ∧ c' = { c with name := name })
    (hcells : ∀ {c : CellId} {v : Value}, s'.cells[c]? = some v → s.Records v) : s'.Complete where
  cells hv := (hcells hv).mono (Nat.le_of_eq hsize.symm)
  formals hid x hx := by
    obtain ⟨c, name, hc, rfl⟩ := hclosures hid
    exact (h.formals hc x hx).mono (Nat.le_of_eq hsize.symm)
  body hid x hx := by
    obtain ⟨c, name, hc, rfl⟩ := hclosures hid
    exact (h.body hc x hx).mono (Nat.le_of_eq hsize.symm)

theorem of_eq (hclosures : s'.closures = s.closures)
    (hcells : ∀ {c : CellId} {v : Value}, s'.cells[c]? = some v → s.Records v) : s'.Complete :=
  h.of_cells (by rw [hclosures]) (fun hid => ⟨_, _, hclosures ▸ hid, rfl⟩) hcells

theorem setCell (hv : s.Records v) (c : CellId) : (s.setCell c v).Complete := by
  refine h.of_eq rfl fun {d w} hw => ?_
  simp only [Store.setCell, Array.getElem?_setIfInBounds] at hw
  split at hw
  · split at hw
    · obtain rfl := Option.some.inj hw
      exact hv
    · cases hw
  · exact h.cells hw

theorem newCell (hv : s.Records v) : (s.newCell v).2.Complete := by
  refine h.of_eq rfl fun {d w} hw => ?_
  simp only [Store.newCell, Array.getElem?_push] at hw
  split at hw
  · obtain rfl := Option.some.inj hw
    exact hv
  · exact h.cells hw

theorem declare (f : FrameId) (name : String) : (s.declare f name).2.Complete := by
  have hcell := h.newCell (v := .absent) rfl
  exact hcell.of_eq rfl hcell.cells

theorem define (hv : s.Records v) (f : FrameId) (name : String) :
    (s.define f name v).2.Complete := by
  unfold Store.define
  split
  · exact h.setCell hv _
  · exact (h.newCell hv).of_eq rfl (h.newCell hv).cells

theorem newClosure {c : Closure} (hformals : ∀ x ∈ c.formals, s.Records x)
    (hbody : ∀ x ∈ c.body, s.Records x) : (s.newClosure c).2.Complete := by
  have hle : s.closures.size ≤ (s.newClosure c).2.closures.size := by simp [Store.newClosure]
  refine ⟨fun hv => (h.cells hv).mono hle, fun hid x hx => ?_, fun hid x hx => ?_⟩
  · rcases of_closures_newClosure hid with rfl | hold
    · exact (hformals x hx).mono hle
    · exact (h.formals hold x hx).mono hle
  · rcases of_closures_newClosure hid with rfl | hold
    · exact (hbody x hx).mono hle
    · exact (h.body hold x hx).mono hle

theorem nameClosure (v : Value) (name : String) : (s.nameClosure v name).Complete := by
  refine h.of_cells (s.closures_size_nameClosure v name) of_closures_nameClosure fun hv => ?_
  rw [cells_nameClosure] at hv
  exact h.cells hv

end Complete

end Store

def Invariant.complete : Invariant where
  Holds := Store.Complete
  Fits := Store.Records

theorem Invariant.lawful_complete : Invariant.complete.Lawful where
  empty := .empty
  atom {s v} hpair hclosure := by
    cases v with
    | pair => exact nomatch hpair
    | closure id => exact absurd rfl (hclosure id)
    | _ => rfl
  pair := Value.isRecorded_pair
  cell hs hv := hs.cells hv
  record hs hc := hs.body hc
  renumber _ hs := ⟨hs.of_eq rfl hs.cells, id⟩
  newFrame _ hs := ⟨hs.of_eq rfl hs.cells, id⟩
  setCell c hs hv := ⟨hs.setCell hv c, id⟩
  declare f name hs := ⟨hs.declare f name, id⟩
  define {s v} f name hs hv := by
    refine ⟨hs.define hv f name, fun hw => ?_⟩
    exact hw.mono (Nat.le_of_eq (congrArg Array.size (s.closures_define f name v)).symm)
  newClosure {s c} hs hf hb := by
    have hsize : (s.newClosure c).2.closures.size = s.closures.size + 1 := Array.size_push ..
    refine ⟨⟨hs.newClosure hf hb, fun hw => hw.mono (hsize ▸ Nat.le_succ _)⟩, ?_⟩
    exact decide_eq_true (hsize ▸ Nat.lt_succ_self _)
  nameClosure {s} v name hs :=
    ⟨hs.nameClosure v name, fun hw => hw.mono (Nat.le_of_eq (s.closures_size_nameClosure ..).symm)⟩

end Keel
