import Keel.Datum.Reader
import Keel.Evaluation
import Keel.Store.Account
import Keel.Store.Basis

/-! # Sessions

A session is a machine that starts from the basis, together with a journal: the
faults that were reported and, if the session is logging, the records of what it
did. Code is evaluated in the frame of the basis, so what one form defines the
next one sees.
-/

namespace Keel

inductive Record where
  | read (shown : String) (line : Int)
  | evaluated (expr value : String)
  | recovered (kind : String)
  deriving DecidableEq, Repr

def Record.text : Record → String
  | .read shown line =>
    "DEBUG keel.reader.parser: read " ++ shown ++ " (line " ++ toString line ++ ")"
  | .evaluated expr value =>
    "DEBUG keel.evaluation.evaluator: evaluated " ++ expr ++ " -> " ++ value
  | .recovered kind => "DEBUG keel.interpreter: recovered from " ++ kind

/-- What a session tells besides its output. -/
inductive Entry where
  | logged (r : Record)
  | reported (fault : Fault)
  deriving DecidableEq, Repr

namespace Entry

def log? : Entry → Option String
  | .logged r => some r.text
  | .reported _ => none

def error? : Entry → Option String
  | .logged _ => none
  | .reported fault => some ("Error: " ++ fault.message ++ "\n")

def text : Entry → String
  | .logged r => r.text ++ "\n"
  | .reported fault => "Error: " ++ fault.message ++ "\n"

end Entry

/-- The fixed choices of a session. -/
structure Setup where
  style : Style
  /-- How many activations may be in progress inside one another. -/
  limit : Nat
  logging : Bool

namespace Setup

/-! The levels of each operation that the limit admits. -/

def reading (setup : Setup) : Nat :=
  Operation.reading.room setup.limit

def writing (setup : Setup) : Nat :=
  setup.style.operation.room setup.limit

def inspecting (setup : Setup) : Nat :=
  Operation.inspecting.room setup.limit

def evaluating (setup : Setup) : Nat :=
  Operation.evaluating.room setup.limit

end Setup

structure Session where
  machine : Machine
  /-- The frame of the basis. -/
  root : FrameId
  /-- The journal, last entry first. -/
  journal : List Entry
  deriving Inhabited

/-- What is done in a session; it remains done if it ends in a fault. -/
abbrev Turn := EStateM Fault Session

namespace Session

def start (source : Source) : Session :=
  let (root, store) := Store.empty.newBasis
  ⟨⟨store, source, ""⟩, root, []⟩

def errorText (s : Session) : String :=
  String.join (s.journal.reverse.filterMap Entry.error?)

def logTexts (s : Session) : List String :=
  s.journal.reverse.filterMap Entry.log?

/-- The session after what it wrote and told has been taken away. -/
def cleared (s : Session) : Session :=
  { s with machine := { s.machine with output := "" }, journal := [] }

def perform {α : Type} (a : Action α) : Turn α := fun ⟨machine, root, journal⟩ =>
  match a machine with
  | .ok v machine => .ok v ⟨machine, root, journal⟩
  | .error fault machine => .error fault ⟨machine, root, journal⟩

section Outcomes

variable {α : Type} {a : Action α} {s : Session} {m : Machine}

theorem perform_of_eq_ok {v : α} (h : a s.machine = .ok v m) :
    perform a s = .ok v { s with machine := m } := by
  simp only [perform, h]

theorem perform_of_eq_error {fault : Fault} (h : a s.machine = .error fault m) :
    perform a s = .error fault { s with machine := m } := by
  simp only [perform, h]

end Outcomes

def enter (e : Entry) : Turn Unit :=
  modify fun s => { s with journal := e :: s.journal }

/-- Adds a record to the log, if there is one. The record is lost if it is to show an integer
without a numeral. -/
def record (setup : Setup) (r : Store → Except Fault Record) : Turn Unit := do
  if setup.logging then
    match ← perform (Action.inspecting fun store => unlessTooLong (r store)) with
    | some told => enter (.logged told)
    | none => return

section Records

variable {setup : Setup} {r : Store → Except Fault Record} {s : Session}
  (hlogging : setup.logging = true)
include hlogging

theorem record_of_eq_ok {told : Record} (h : r s.machine.store = .ok told) :
    record setup r s = .ok () { s with journal := .logged told :: s.journal } := by
  have hmade : Action.inspecting (fun store => unlessTooLong (r store)) s.machine =
      .ok (some told) s.machine := by
    show Action.ofExcept (unlessTooLong (r s.machine.store)) s.machine = _
    rw [h]
    rfl
  rw [record, if_pos hlogging]
  exact bind_of_eq_ok (perform_of_eq_ok hmade)

theorem record_of_eq_tooDeep (h : r s.machine.store = .error .tooDeep) :
    record setup r s = .error .tooDeep s := by
  have hdeep : Action.inspecting (fun store => unlessTooLong (r store)) s.machine =
      .error .tooDeep s.machine := by
    show Action.ofExcept (unlessTooLong (r s.machine.store)) s.machine = _
    rw [h]
    rfl
  rw [record, if_pos hlogging]
  exact bind_of_eq_error (perform_of_eq_error hdeep)

end Records

/-- Takes over a datum that was read up to the given line. -/
def accept (setup : Setup) (d : Datum) (line : Int) : Turn Value := do
  let expr ← perform (Action.updating (·.load d))
  record setup fun store => do return .read (← store.inspect setup.inspecting expr) line
  return expr

def readText (setup : Setup) (code : String) : Turn Value := do
  let (result, source) := Datum.read setup.reading (.ofString code)
  accept setup (← perform (Action.ofExcept result)) source.line

def evaluateValue (setup : Setup) (expr : Value) : Turn Value := do
  let v ← perform (evaluate setup.style setup.evaluating (← get).root expr)
  record setup fun store => do
    return .evaluated (← store.inspect setup.inspecting expr) (← store.inspect setup.inspecting v)
  return v

/-- Reads one expression from the source of the session and evaluates it. -/
def evaluateOne (setup : Setup) : Turn Value := do
  let source := (← get).machine.source
  let (result, source) := Datum.read setup.reading source
  perform (modify ({ · with source }))
  let d ← perform (Action.ofExcept result)
  evaluateValue setup (← accept setup d source.line)

/-- A form that cannot be read is given up where reading stopped; one that can is evaluated with
the source standing behind it. -/
theorem evaluateOne_eq (setup : Setup) (s : Session) : evaluateOne setup s =
    match Datum.read setup.reading s.machine.source with
    | (.error fault, source) => .error fault { s with machine := { s.machine with source } }
    | (.ok d, source) => (accept setup d source.line >>= evaluateValue setup)
        { s with machine := { s.machine with source } } := by
  have hs : evaluateOne setup s = (do
      let (result, source) := Datum.read setup.reading s.machine.source
      perform (modify ({ · with source }))
      let d ← perform (Action.ofExcept result)
      evaluateValue setup (← accept setup d source.line) : Turn Value) s := rfl
  rw [hs]
  rcases Datum.read setup.reading s.machine.source with ⟨fault | d, source⟩ <;> rfl

/-- Evaluates every form of a text of its own; the value is the last one, or `last`. -/
def evaluateForms (setup : Setup) (last : Value) (text : Source) : Turn Value :=
  match _h : Datum.read setup.reading text with
  | (.ok d, rest) => do
    let v ← evaluateValue setup (← accept setup d rest.line)
    evaluateForms setup v rest
  | (.error .endOfInput, _) => return last
  | (.error fault, _) => throw fault
termination_by text.unread.length
decreasing_by exact Datum.length_unread_lt_of_read _h

def evaluateText (setup : Setup) (code : String) : Turn Value :=
  evaluateForms setup .nil (.ofString code)

end Session

end Keel
