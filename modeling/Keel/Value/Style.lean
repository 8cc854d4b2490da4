import Keel.Value.Printer

/-! # Styles

How `print` and the echo of a session write a value is a choice of the session.
Whatever style is chosen, it writes a value or meets a limit, more room makes no
other difference to it, and it knows closures by their names. Both forms of the
printer are styles, and so is one text for all values.
-/

namespace Keel

namespace Bounded

theorem numeral (i : Int) : Bounded (Value.numeral i) := by
  unfold Value.numeral
  split
  · exact pure _
  · rintro fault ⟨⟩
    exact .inr rfl

variable (names : ClosureId → Option String)

theorem render_and_renderRest (v : Value) :
    (∀ limit, Bounded (v.render names limit)) ∧ ∀ inner, Bounded (v.renderRest names inner) := by
  induction v with
  | pair id car cdr ihcar ihcdr =>
    constructor
    · intro limit
      cases limit with
      | zero => exact tooDeep
      | succ inner =>
        rw [Value.render]
        exact bind (ihcar.1 inner) fun _ => bind (ihcdr.2 inner) fun _ => pure _
    · intro inner
      rw [Value.renderRest]
      exact bind (ihcar.1 inner) fun _ => bind (ihcdr.2 inner) fun _ => pure _
  | nil => exact ⟨fun _ => pure _, fun _ => pure _⟩
  | int i =>
    exact ⟨fun _ => numeral i, fun _ => bind (numeral i) fun _ => pure _⟩
  | _ => exact ⟨fun _ => pure _, fun _ => pure _⟩

theorem render (limit : Nat) (v : Value) : Bounded (v.render names limit) :=
  (render_and_renderRest names v).1 limit

theorem inspect (limit : Nat) (v : Value) : Bounded (v.inspect names limit) := by
  induction v generalizing limit with
  | pair id car cdr ihcar ihcdr =>
    cases limit with
    | zero => exact tooDeep
    | succ inner => exact bind (ihcar inner) fun _ => bind (ihcdr inner) fun _ => pure _
  | int i =>
    rw [Value.inspect]
    exact numeral i
  | _ =>
    rw [Value.inspect]
    exact pure _

end Bounded

namespace Value

/-! ## More room -/

section Room

variable (names : ClosureId → Option String)

theorem outlasts_render_and_renderRest (v : Value) {limit limit' : Nat} (h : limit ≤ limit') :
    Outlasts (v.render names limit) (v.render names limit') ∧
      Outlasts (v.renderRest names limit) (v.renderRest names limit') := by
  induction v generalizing limit limit' with
  | pair id car cdr ihcar ihcdr =>
    constructor
    · cases limit with
      | zero => exact .inl rfl
      | succ inner =>
        cases limit' with
        | zero => omega
        | succ inner' =>
          have hinner : inner ≤ inner' := by omega
          exact (ihcar hinner).1.bind fun _ => (ihcdr hinner).2.bind fun _ => .refl _
    · exact (ihcar h).1.bind fun _ => (ihcdr h).2.bind fun _ => .refl _
  | _ =>
    constructor
    · exact .refl _
    · exact .refl _

theorem outlasts_render (v : Value) (h : limit ≤ limit') :
    Outlasts (v.render names limit) (v.render names limit') :=
  (outlasts_render_and_renderRest names v h).1

theorem outlasts_inspect (v : Value) {limit limit' : Nat} (h : limit ≤ limit') :
    Outlasts (v.inspect names limit) (v.inspect names limit') := by
  induction v generalizing limit limit' with
  | pair id car cdr ihcar ihcdr =>
    cases limit with
    | zero => exact .inl rfl
    | succ inner =>
      cases limit' with
      | zero => omega
      | succ inner' =>
        have hinner : inner ≤ inner' := by omega
        exact (ihcar hinner).bind fun _ => (ihcdr hinner).bind fun _ => .refl _
  | _ =>
    simp only [inspect]
    exact .refl _

end Room

/-! ## Other numbers for closures -/

/-- The value with another number for every closure in it. -/
def rename (ρ : ClosureId → ClosureId) : Value → Value
  | .pair id car cdr => .pair id (car.rename ρ) (cdr.rename ρ)
  | .closure id => .closure (ρ id)
  | v => v

variable {ρ : ClosureId → ClosureId}

@[simp] theorem rename_id (v : Value) : v.rename id = v := by
  induction v with
  | pair id car cdr ihcar ihcdr => rw [rename, ihcar, ihcdr]
  | _ => rfl

section Names

variable {names names' : ClosureId → Option String} (h : ∀ id, names' (ρ id) = names id)
include h

theorem render_and_renderRest_rename (v : Value) :
    (∀ limit, (v.rename ρ).render names' limit = v.render names limit) ∧
      ∀ inner, (v.rename ρ).renderRest names' inner = v.renderRest names inner := by
  induction v with
  | pair id car cdr ihcar ihcdr =>
    constructor
    · intro limit
      cases limit with
      | zero => rfl
      | succ inner => simp only [rename, render, ihcar.1, ihcdr.2]
    · intro inner
      simp only [rename, renderRest, ihcar.1, ihcdr.2]
  | closure id => simp only [rename, render, renderRest, renderFlat, h, implies_true, and_self]
  | _ => exact ⟨fun _ => rfl, fun _ => rfl⟩

theorem render_rename (limit : Nat) (v : Value) :
    (v.rename ρ).render names' limit = v.render names limit :=
  (render_and_renderRest_rename h v).1 limit

theorem inspect_rename (limit : Nat) (v : Value) :
    (v.rename ρ).inspect names' limit = v.inspect names limit := by
  induction v generalizing limit with
  | pair id car cdr ihcar ihcdr =>
    cases limit with
    | zero => rfl
    | succ inner => simp only [rename, inspect, ihcar, ihcdr]
  | closure id => simp only [rename, inspect, h]
  | _ => simp only [rename, inspect]

end Names

end Value

/-! ## The choice of a session -/

/-- How `print` and the echo of a session write a value. -/
structure Style where
  /-- What the levels of a value spend activations on. -/
  operation : Operation
  write : (ClosureId → Option String) → (limit : Nat) → Value → Except Fault String
  bounded : ∀ names limit v, Bounded (write names limit v)
  outlasts : ∀ names {limit limit'} v, limit ≤ limit' →
    Outlasts (write names limit v) (write names limit' v)
  renamed : ∀ {names names' : ClosureId → Option String} {ρ : ClosureId → ClosureId},
    (∀ id, names' (ρ id) = names id) → ∀ limit v,
      write names' limit (v.rename ρ) = write names limit v

namespace Style

def plain : Style where
  operation := .writing
  write names limit v := v.render names limit
  bounded := Bounded.render
  outlasts names _ _ v h := v.outlasts_render names h
  renamed h limit v := Value.render_rename h limit v

def debug : Style where
  operation := .inspecting
  write names limit v := v.inspect names limit
  bounded := Bounded.inspect
  outlasts names _ _ v h := v.outlasts_inspect names h
  renamed h limit v := Value.inspect_rename h limit v

/-- Every value is written as the same text. -/
def constant (shown : String) : Style where
  operation := .writing
  write _ _ _ := return shown
  bounded _ _ _ := .pure shown
  outlasts _ _ _ _ _ := .refl _
  renamed _ _ _ := rfl

end Style

end Keel
