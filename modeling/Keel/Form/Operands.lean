import Keel.Machine

/-! # The operands of forms

The parts that several forms share: sequences of expressions, parameter lists,
and the bindings of the `let` family.
-/

namespace Keel.Form

/-- Evaluates expressions in order; the value is that of the last one, or `nil`. -/
def sequence (ev : Evaluator) (frame : FrameId) (body : List Value) : Action Value :=
  body.foldlM (fun _ expr => ev frame expr) .nil

/-- A parameter list is a proper list of distinct symbols. -/
def parameters (limit : Nat) (form : Form) (params : Value) : Action (List Value) := do
  let formals ← Action.properList form.name params
  match formals.find? (!·.isSymbol) with
  | some formal => Action.misuse (.notParameter form (← Action.shown limit formal))
  | none => if formals.Nodup then return formals else Action.misuse (.duplicateParameter form)

/-- A binding is a proper list of a symbol and an expression. -/
def binding (form : Form) (v : Value) : Action (String × Value) := do
  match ← Action.properList form.name v with
  | [.symbol name, expr] => return (name, expr)
  | _ => Action.misuse (.badBinding form)

def bindingsAndBody (form : Form) : List Value → Action (List (String × Value) × List Value)
  | [] => Action.misuse (.badShape form)
  | bindings :: body => do
    let bindings ← Action.properList form.name bindings
    return (← bindings.mapM (binding form), body)

end Keel.Form
