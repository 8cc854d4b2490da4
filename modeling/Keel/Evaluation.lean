import Keel.Form.Evaluation
import Keel.Primitive.Call
import Keel.Scope

/-! # Evaluation

A symbol is looked up, a list is a special form or a call, and every other value
stands for itself. `step` evaluates one expression and leaves the expressions
inside it to another evaluator; `evaluate` ties the knot for a limited number of
evaluations inside one another.
-/

namespace Keel

/-- The special form that the head of a list names. -/
def Form.ofHead? : Value → Option Form
  | .symbol name => Form.ofName? name
  | _ => none

def Closure.call (limit : Nat) (ev : Evaluator) (fn : Closure) (args : List Value) :
    Action Value := do
  if args.length = fn.formals.length then
    let frame ← Action.newFrame fn.frame
    (fn.formals.zip args).forM fun (formal, arg) => discard (Scope.define limit frame formal arg)
    Form.sequence ev frame fn.body
  else
    let name := match fn.name with
      | none | some "" => "lambda"
      | some name => name
    Action.misuse (.wrongCount name fn.formals.length args.length)

/-- Calls a value; only primitives and closures can be called. -/
def Value.call (style : Style) (limit : Nat) (ev : Evaluator) (fn : Value) (args : List Value) :
    Action Value := do
  match fn with
  | .primitive _ p => p.call style limit args
  | .closure id =>
    match (← get).store.closures[id]? with
    | some record => record.call limit ev args
    | none => Action.misuse (.notFunction (Value.showClosure none))
  | v => do Action.misuse (.notFunction (← Action.inspecting (·.render limit v)))

section Closures

variable {style : Style} {limit : Nat} {ev : Evaluator} {id : ClosureId} {args : List Value}
  {m : Machine}

theorem Value.call_of_eq_some {record : Closure} (h : m.store.closures[id]? = some record) :
    (Value.closure id).call style limit ev args m = record.call limit ev args m := by
  refine (bind_of_eq_ok (show (get : Action Machine) m = .ok m m from rfl)).trans ?_
  rw [h]

theorem Value.call_of_eq_none (h : m.store.closures[id]? = none) :
    (Value.closure id).call style limit ev args m =
      .error (.misuse (.notFunction (Value.showClosure none))) m := by
  refine (bind_of_eq_ok (show (get : Action Machine) m = .ok m m from rfl)).trans ?_
  rw [h]
  rfl

end Closures

/-- Evaluates one expression by means of an evaluator for the expressions inside it. -/
def step (style : Style) (limit : Nat) (ev : Evaluator) : Evaluator := fun frame expr =>
  match expr with
  | .symbol name => Action.inspecting (·.lookup frame name)
  | .pair _ head operands =>
    match Form.ofHead? head with
    | some form => do
      form.eval limit ev frame (← Action.properList form.name operands)
    | none => do
      let operands ← Action.properList "application" operands
      let fn ← ev frame head
      let args ← operands.mapM (ev frame)
      fn.call style limit ev args
  | v => return v

/-- Evaluates an expression with at most `limit` evaluations inside one another. -/
def evaluate (style : Style) : (limit : Nat) → Evaluator
  | 0 => fun _ _ => throw .tooDeep
  | limit + 1 => step style limit (evaluate style limit)

end Keel
