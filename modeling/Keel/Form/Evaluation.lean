import Keel.Form.Operands

/-! # Evaluating special forms

Each form takes its operands unevaluated, checks their shape first, and hands
the expressions among them to the given evaluator.
-/

namespace Keel.Form

variable (limit : Nat) (ev : Evaluator) (frame : FrameId)

def evalQuote : List Value → Action Value
  | [datum] => return datum
  | _ => Action.misuse (.badShape .quote)

def evalIf : List Value → Action Value
  | [test, yes] => do
    if (← ev frame test).isTrue then ev frame yes else return .nil
  | [test, yes, no] => do
    if (← ev frame test).isTrue then ev frame yes else ev frame no
  | _ => Action.misuse (.badShape .ifElse)

/-- The first clause whose test is true is selected; a clause without a body gives its test. -/
def evalCond : List Value → Action Value
  | [] => return .nil
  | .pair _ test body :: clauses => do
    let body ← Action.properList Form.cond.name body
    let v ← if test = .symbol "else" then pure (.bool true) else ev frame test
    if v.isTrue then
      if body.isEmpty then return v else sequence ev frame body
    else evalCond clauses
  | _ => Action.misuse (.badShape .cond)

/-- Evaluates operands up to the first false one; `last` is the value so far. -/
def evalAnd (last : Value) : List Value → Action Value
  | [] => return last
  | expr :: exprs => do
    let v ← ev frame expr
    if v.isTrue then evalAnd v exprs else return v

def evalOr : List Value → Action Value
  | [] => return .bool false
  | expr :: exprs => do
    let v ← ev frame expr
    if v.isTrue then return v else evalOr exprs

def evalLambda : List Value → Action Value
  | [] => Action.misuse (.badShape .lambda)
  | params :: body => do
    let formals ← parameters limit .lambda params
    Action.newClosure formals body frame none

/-- Binds a name in the frame, to a value or to a function of the parameters behind the name. -/
def evalDefine : List Value → Action Value
  | .pair _ (.symbol name) params :: body => do
    let formals ← parameters limit .define params
    Action.define frame name (← Action.newClosure formals body frame (some name))
    return .symbol name
  | .pair .. :: _ => Action.misuse .functionName
  | [.symbol name, expr] => do
    Action.define frame name (← Action.named (← ev frame expr) name)
    return .symbol name
  | [target, _] => do Action.misuse (.notDefinable (← Action.shown limit target))
  | _ => Action.misuse (.badShape .define)

def evalAssign : List Value → Action Value
  | [.symbol name, expr] => do
    let v ← ev frame expr
    Action.assign frame name v
    return v
  | [target, _] => do Action.misuse (.notAssignable (← Action.shown limit target))
  | _ => Action.misuse (.badShape .assign)

/-- The frame in which the body of a `let` is evaluated: all initialisers are evaluated outside,
then all names are bound in one new frame. -/
def letFrame (bindings : List (String × Value)) : Action FrameId := do
  let values ← bindings.mapM fun (name, expr) => do Action.named (← ev frame expr) name
  let inner ← Action.newFrame frame
  (bindings.zip values).forM fun ((name, _), v) => Action.define inner name v
  return inner

def evalLet (operands : List Value) : Action Value := do
  let (bindings, body) ← bindingsAndBody .letIn operands
  sequence ev (← letFrame ev frame bindings) body

/-- The frame in which the body of a `let*` is evaluated: each name is bound in a new frame inside
the frame of the one before. -/
def letStarFrame (bindings : List (String × Value)) : Action FrameId := do
  let inner ← bindings.foldlM
    (fun frame (name, expr) => do
      let v ← Action.named (← ev frame expr) name
      let inner ← Action.newFrame frame
      Action.define inner name v
      return inner)
    frame
  Action.newFrame inner

def evalLetStar (operands : List Value) : Action Value := do
  let (bindings, body) ← bindingsAndBody .letStar operands
  sequence ev (← letStarFrame ev frame bindings) body

/-- A new frame in which all names are declared, and their cells in order. -/
def declareFrame (bindings : List (String × Value)) : Action (FrameId × List CellId) := do
  let inner ← Action.newFrame frame
  let cells ← bindings.mapM fun (name, _) => Action.updating (·.declare inner name)
  return (inner, cells)

def initialise (cells : List CellId) (bindings : List (String × Value)) : Action Unit :=
  (cells.zip bindings).forM fun (cell, name, expr) => do
    let v ← Action.named (← ev frame expr) name
    Action.updating fun s => ((), s.setCell cell v)

/-- The frame in which the body of a `letrec` is evaluated: all names are declared in one new
frame, and initialised there. -/
def letRecFrame (bindings : List (String × Value)) : Action FrameId := do
  let (inner, cells) ← declareFrame frame bindings
  initialise ev inner cells bindings
  return inner

def evalLetRec (operands : List Value) : Action Value := do
  let (bindings, body) ← bindingsAndBody .letRec operands
  sequence ev (← letRecFrame ev frame bindings) body

def eval (form : Form) (operands : List Value) : Action Value :=
  match form with
  | .quote => evalQuote operands
  | .ifElse => evalIf ev frame operands
  | .cond => evalCond ev frame operands
  | .and => evalAnd ev frame (.bool true) operands
  | .or => evalOr ev frame operands
  | .lambda => evalLambda limit frame operands
  | .define => evalDefine limit ev frame operands
  | .assign => evalAssign limit ev frame operands
  | .begin => sequence ev frame operands
  | .letIn => evalLet ev frame operands
  | .letStar => evalLetStar ev frame operands
  | .letRec => evalLetRec ev frame operands

end Keel.Form
