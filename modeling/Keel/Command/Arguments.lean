import Keel.Text.DecimalDigit
import Keel.Text.Quoted

/-! # Command-line arguments

Arguments are switches or the file to run. Long switches may be shortened as long
as they stay unambiguous, short ones may be strung together, and after `--` no
argument is a switch. All arguments are classified before any takes effect.
-/

namespace Keel.Command

inductive Switch where
  | help
  | verbose
  | version
  deriving DecidableEq, Repr

namespace Switch

def spellings : List (String × Switch) :=
  [("-h", .help), ("--help", .help), ("-v", .verbose), ("--verbose", .verbose),
    ("--version", .version)]

def ofSpelling? (s : String) : Option Switch :=
  spellings.lookup s

/-- All spellings of the switch, as a complaint names it. -/
def title (s : Switch) : String :=
  "/".intercalate ((spellings.filter (·.2 = s)).map (·.1))

end Switch

inductive Complaint where
  | ambiguous (argument : String) (candidates : List String)
  | needlessValue (s : Switch) (value : String)
  | unrecognized (arguments : List String)
  deriving DecidableEq, Repr

def Complaint.message : Complaint → String
  | .ambiguous argument candidates =>
    "ambiguous option: " ++ argument ++ " could match " ++ ", ".intercalate candidates
  | .needlessValue s value =>
    "argument " ++ s.title ++ ": ignored explicit argument " ++ Text.quote value
  | .unrecognized arguments => "unrecognized arguments: " ++ " ".intercalate arguments

inductive Argument where
  | operand (text : String)
  /-- The argument `--`. -/
  | separator
  /-- A long switch, with the value given to it behind an equals sign. -/
  | long (s : Switch) (value : Option String)
  /-- A short switch, with what follows it in the same argument. -/
  | short (s : Switch) (rest : List Char)
  /-- A short switch with an equals sign and nothing behind it. -/
  | shortEmpty (s : Switch)
  | unknown (text : String)
  deriving DecidableEq, Repr

namespace Argument

def isDecimal (c : Char) : Bool :=
  (Text.digitValue? c).isSome

/-- A minus sign with digits, or with a point that has digits behind it. -/
def isNegativeNumber : List Char → Bool
  | '-' :: cs =>
    let cs := if cs.getLast? = some '\n' then cs.dropLast else cs
    match cs.dropWhile isDecimal with
    | [] => !cs.isEmpty
    | '.' :: fraction => !fraction.isEmpty && fraction.all isDecimal
    | _ => false
  | _ => false

/-- What stands before the first equals sign, and what stands behind it. -/
def splitValue (cs : List Char) : List Char × Option (List Char) :=
  match cs.dropWhile (· ≠ '=') with
  | [] => (cs, none)
  | _ :: value => (cs.takeWhile (· ≠ '='), some value)

def ofShort (s : Switch) : Option (List Char) → Argument
  | none => short s []
  | some [] => shortEmpty s
  | some rest => short s rest

def other (cs : List Char) : Argument :=
  if isNegativeNumber cs || cs.contains ' ' then operand (String.ofList cs)
  else unknown (String.ofList cs)

def classify (argument : String) : Except Complaint Argument :=
  let cs := argument.toList
  let (name, value) := splitValue cs
  match cs with
  | '-' :: '-' :: _ =>
    match Switch.ofSpelling? argument with
    | some s => .ok (long s none)
    | none =>
      match Switch.ofSpelling? (String.ofList name) with
      | some s => .ok (long s (value.map String.ofList))
      | none =>
        match Switch.spellings.filter fun (spelling, _) => name.isPrefixOf spelling.toList with
        | [] => .ok (other cs)
        | [(_, s)] => .ok (long s (value.map String.ofList))
        | candidates => .error (.ambiguous argument (candidates.map (·.1)))
  | ['-', c] => .ok ((Switch.ofSpelling? (String.ofList ['-', c])).elim (other cs) (short · []))
  | '-' :: c :: rest =>
    let following := if rest.head? = some '=' then value else some rest
    .ok ((Switch.ofSpelling? (String.ofList ['-', c])).elim (other cs) (ofShort · following))
  | _ => .ok (operand argument)

def classifyAll : List String → Except Complaint (List Argument)
  | [] => .ok []
  | argument :: arguments =>
    if argument = "--" then .ok (separator :: arguments.map operand)
    else do return (← classify argument) :: (← classifyAll arguments)

/-- The switches of a short switch and the characters strung behind it. -/
def unstring (s : Switch) : List Char → Except Complaint (List Switch)
  | [] => .ok [s]
  | c :: cs =>
    match Switch.ofSpelling? (String.ofList ['-', c]) with
    | some next => return s :: (← unstring next cs)
    | none => .error (.needlessValue s (String.ofList (c :: cs)))

end Argument

inductive Request where
  /-- To run a file, or the standard input. -/
  | run (file : Option String) (verbose : Bool)
  | help
  | version
  | refused (complaint : Complaint)
  deriving DecidableEq, Repr

namespace Request

structure Progress where
  /-- The file, once the place of the file has been taken. -/
  file : Option (Option String)
  verbose : Bool
  /-- The arguments left over, last first. -/
  extras : List String

/-- Lets switches take effect; the first that asks for a text decides. -/
def applySwitches : List Switch → Progress → Except Request Progress
  | [], p => .ok p
  | .help :: _, _ => .error .help
  | .version :: _, _ => .error .version
  | .verbose :: switches, p => applySwitches switches { p with verbose := true }

def take : List Argument → Progress → Request
  | [], p => if p.extras.isEmpty then .run p.file.join p.verbose
    else .refused (.unrecognized p.extras.reverse)
  | .operand text :: arguments, p =>
    if p.file.isSome then take arguments { p with extras := text :: p.extras }
    else
      match arguments with
      | .separator :: arguments => take arguments { p with file := some (some text) }
      | arguments => take arguments { p with file := some (some text) }
  | .separator :: arguments, p =>
    if p.file.isSome then take arguments { p with extras := "--" :: p.extras }
    else
      match arguments with
      | .operand text :: arguments => take arguments { p with file := some (some text) }
      | arguments => take arguments { p with file := some none }
  | .unknown text :: arguments, p => take arguments { p with extras := text :: p.extras }
  | .long s (some value) :: _, _ => .refused (.needlessValue s value)
  | .shortEmpty s :: _, _ => .refused (.needlessValue s "")
  | .long s none :: arguments, p =>
    match applySwitches [s] p with
    | .ok p => take arguments p
    | .error request => request
  | .short s rest :: arguments, p =>
    match Argument.unstring s rest with
    | .error complaint => .refused complaint
    | .ok switches =>
      match applySwitches switches p with
      | .ok p => take arguments p
      | .error request => request

def ofArguments (arguments : List String) : Request :=
  match Argument.classifyAll arguments with
  | .ok classified => take classified ⟨none, false, []⟩
  | .error complaint => .refused complaint

end Request

end Keel.Command
