import Keel.Source
import Keel.Store.Binding

/-! # Actions

Evaluation acts on a machine: the store, the source that is being read and the
text written so far. An action gives a value or a fault, and what it did to the
machine remains done in either case.
-/

namespace Keel

structure Machine where
  store : Store
  source : Source
  output : String
  deriving Inhabited

abbrev Action := EStateM Fault Machine

namespace Action

def misuse {α : Type} (cause : Misuse) : Action α :=
  throw (.misuse cause)

def ofExcept {α : Type} : Except Fault α → Action α
  | .ok a => pure a
  | .error fault => throw fault

def inspecting {α : Type} (f : Store → Except Fault α) : Action α := do
  ofExcept (f (← get).store)

def updating {α : Type} (f : Store → α × Store) : Action α :=
  modifyGet fun ⟨store, source, output⟩ =>
    let (a, store) := f store
    (a, ⟨store, source, output⟩)

def nextChar : Action (Option Char) :=
  modifyGet fun ⟨store, source, output⟩ =>
    let (c, source) := source.next
    (c, ⟨store, source, output⟩)

def write (s : String) : Action Unit :=
  modify fun ⟨store, source, output⟩ => ⟨store, source, output ++ s⟩

def shown (limit : Nat) (v : Value) : Action String :=
  inspecting (·.inspect limit v)

def properList (construct : String) (v : Value) : Action (List Value) :=
  match v.toList? with
  | some items => pure items
  | none => misuse (.improperList construct)

def define (f : FrameId) (name : String) (v : Value) : Action Unit := do
  discard (updating (·.define f name v))

def assign (f : FrameId) (name : String) (v : Value) : Action Unit := do
  match (← get).store.findCell? f name with
  | some c => updating fun s => ((), s.setCell c v)
  | none => throw (.unbound (.assigned name))

def newFrame (outer : FrameId) : Action FrameId :=
  updating (·.newFrame outer)

def newClosure (formals body : List Value) (frame : FrameId) (name : Option String) : Action Value :=
  updating (·.newClosure ⟨formals, body, frame, name⟩)

def named (v : Value) (name : String) : Action Value := do
  updating fun s => ((), s.nameClosure v name)
  return v

end Action

/-! ## Computations one after the other -/

section Outcomes

variable {ε σ α β : Type} {a : EStateM ε σ α} {s s' : σ} {v : α} {fault : ε}

theorem bind_of_eq_ok {k : α → EStateM ε σ β} (h : a s = .ok v s') : (a >>= k) s = k v s' := by
  show EStateM.bind a k s = k v s'
  rw [EStateM.bind, h]

theorem bind_of_eq_error {k : α → EStateM ε σ β} (h : a s = .error fault s') :
    (a >>= k) s = .error fault s' := by
  show EStateM.bind a k s = .error fault s'
  rw [EStateM.bind, h]

theorem bind_congr_at {b : EStateM ε σ α} (h : a s = b s) (k : α → EStateM ε σ β) :
    (a >>= k) s = (b >>= k) s := by
  show EStateM.bind a k s = EStateM.bind b k s
  rw [EStateM.bind, EStateM.bind, h]

theorem exists_of_bind_eq_ok {k : α → EStateM ε σ β} {w : β} {t : σ}
    (h : (a >>= k) s = .ok w t) : ∃ v s', a s = .ok v s' ∧ k v s' = .ok w t := by
  cases ha : a s with
  | ok v s' => exact ⟨v, s', rfl, (bind_of_eq_ok ha).symm.trans h⟩
  | error fault s' => exact nomatch (bind_of_eq_error ha).symm.trans h

theorem error_of_bind_eq_error {k : α → EStateM ε σ β} {t : σ} (h : (a >>= k) s = .error fault t) :
    a s = .error fault t ∨ ∃ v s', a s = .ok v s' ∧ k v s' = .error fault t := by
  cases ha : a s with
  | ok v s' => exact .inr ⟨v, s', rfl, (bind_of_eq_ok ha).symm.trans h⟩
  | error fault' s' =>
    cases (bind_of_eq_error ha).symm.trans h
    exact .inl rfl

variable {handle : ε → EStateM ε σ α}

theorem tryCatch_of_eq_ok (h : a s = .ok v s') :
    (tryCatch a handle : EStateM ε σ α) s = .ok v s' := by
  show EStateM.tryCatch a handle s = .ok v s'
  delta EStateM.tryCatch
  simp only [h]

/-- What was done before the fault remains done when it is handled. -/
theorem tryCatch_of_eq_error (h : a s = .error fault s') :
    (tryCatch a handle : EStateM ε σ α) s = handle fault s' := by
  show EStateM.tryCatch a handle s = handle fault s'
  delta EStateM.tryCatch
  simp only [h]
  rfl

end Outcomes

namespace Action

variable {m : Machine} {f : FrameId} {name : String} {v : Value}

theorem updating_of_eq {α : Type} {g : Store → α × Store} {a : α} {s : Store}
    (h : g m.store = (a, s)) : updating g m = .ok a { m with store := s } := by
  show EStateM.Result.ok (g m.store).1 { m with store := (g m.store).2 } = _
  rw [h]

theorem inspecting_map {α β : Type} (f : α → β) (x : Store → Except Fault α) :
    inspecting (fun s => f <$> x s) = f <$> inspecting x := by
  funext m
  show ofExcept (f <$> x m.store) m = EStateM.map f (inspecting x) m
  have hm : inspecting x m = ofExcept (x m.store) m := rfl
  cases hx : x m.store with
  | ok a =>
    simp only [EStateM.map, hm, hx]
    rfl
  | error fault =>
    simp only [EStateM.map, hm, hx]
    rfl

theorem shown_of_inspect {limit : Nat} {text : String} (h : m.store.inspect limit v = .ok text) :
    shown limit v m = .ok text m := by
  show ofExcept (m.store.inspect limit v) m = .ok text m
  rw [h]
  rfl

theorem write_append (a b : String) :
    write (a ++ b) = (do write a; write b) := by
  funext m
  show EStateM.Result.ok () { m with output := m.output ++ (a ++ b) } =
    .ok () { m with output := m.output ++ a ++ b }
  rw [String.append_assoc]

theorem assign_of_eq_some {c : CellId} (h : m.store.findCell? f name = some c) :
    assign f name v m = updating (fun s => ((), s.setCell c v)) m := by
  unfold assign
  rw [bind_of_eq_ok (show (get : Action Machine) m = .ok m m from rfl), h]

theorem assign_of_eq_none (h : m.store.findCell? f name = none) :
    assign f name v m = .error (.unbound (.assigned name)) m := by
  unfold assign
  rw [bind_of_eq_ok (show (get : Action Machine) m = .ok m m from rfl), h]
  rfl

end Action

/-- What evaluates an expression in a frame. -/
abbrev Evaluator := FrameId → Value → Action Value

end Keel
