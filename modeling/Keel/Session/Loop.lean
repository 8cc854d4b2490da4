import Keel.Session.Basic

/-! # The read loop of a session

The loop reads and evaluates forms until the source is exhausted. A fault in a
form is reported and counted, and the loop carries on; after a malformed text the
rest of its line is skipped. Only an integer without a numeral ends the loop.
-/

namespace Keel.Session

inductive Round where
  | finished
  | evaluated
  | recovered
  deriving DecidableEq, Repr

def write (s : String) : Turn Unit :=
  perform (Action.write s)

def report (setup : Setup) (fault : Fault) : Turn Unit := do
  record setup fun _ => return .recovered fault.kind
  enter (.reported fault)

/-- Goes on after a fault, if the loop can. -/
def recover (setup : Setup) (interactive : Bool) (fault : Fault) : Turn Round :=
  match fault with
  | .endOfInput => do
    if interactive then write "\n"
    return .finished
  | .malformed .. => do
    report setup fault
    perform (modify fun m => { m with source := m.source.skipLine })
    return .recovered
  | .misuse _ | .unbound _ | .tooDeep => do
    report setup fault
    return .recovered
  | .slotTaken .. | .tooLong => throw fault

def echo (setup : Setup) (interactive : Bool) (v : Value) : Turn Unit := do
  if interactive then
    let shown ← perform (Action.inspecting fun s => setup.style.write s.closureName setup.writing v)
    write (shown ++ "\n")

def turn (setup : Setup) (interactive : Bool) : Turn Round := do
  echo setup interactive (← evaluateOne setup)
  return .evaluated

/-- One round of the loop; an interactive session prompts for it. -/
def round (setup : Setup) (interactive : Bool) (prompt : String) : Turn Round := do
  if interactive then write prompt
  tryCatch (turn setup interactive) (recover setup interactive)

def rounds (setup : Setup) (interactive : Bool) (prompt : String) :
    (fuel errors : Nat) → Turn Nat
  | 0, errors => return errors
  | fuel + 1, errors => do
    match ← round setup interactive prompt with
    | .finished => return errors
    | .evaluated => rounds setup interactive prompt fuel errors
    | .recovered => rounds setup interactive prompt fuel (errors + 1)

/-- Runs the loop and counts the errors. Every round but the last consumes a character. -/
def run (setup : Setup) (interactive : Bool) (prompt : String) : Turn Nat := do
  rounds setup interactive prompt ((← get).machine.source.unread.length + 1) 0

end Keel.Session
