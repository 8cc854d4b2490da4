import Keel.Command.Arguments
import Keel.Command.Files
import Keel.Session.Loop
import Keel.Settings

/-! # Running a command

A command runs a file, or else the standard input, through the loop of a new
session. Input and output are bytes: a character is the byte of its code, and a
character that is no byte is written as a question mark.
-/

namespace Keel.Command

/-- Why a command breaks off without an exit code of its own. -/
inductive Breakdown where
  /-- The loop met a fault that it cannot recover from. -/
  | unrecovered (fault : Fault)
  | limitTooLarge
  | nulInPath
  deriving DecidableEq, Repr

def Breakdown.message : Breakdown → String
  | .unrecovered fault => fault.message
  | .limitTooLarge => "recursion limit too large"
  | .nulInPath => "path with a NUL character"

inductive Ending where
  | exit (code : Nat)
  | broken (cause : Breakdown)
  deriving DecidableEq, Repr

structure Report where
  ending : Ending
  stdout : String
  stderr : String
  deriving DecidableEq, Repr

def usage : String :=
  "usage: keel [-h] [-v] [--version] [file]\n"

def helpText : String :=
  usage ++ "
Keel Lisp interpreter

positional arguments:
  file           source file to run (default: standard input)

options:
  -h, --help     show this help message and exit
  -v, --verbose  enable debug logging
  --version      show program's version number and exit
"

def versionText : String :=
  "keel 0.1.0\n"

/-- The text as bytes, one character for each. -/
def byteText (s : String) : String :=
  s.map fun c => if c.toNat < 0x100 then c else '?'

def journalText (s : Session) : String :=
  String.join (s.journal.reverse.map Entry.text)

def complain (complaint : Complaint) : Report :=
  ⟨.exit 2, "", usage ++ "keel: error: " ++ complaint.message ++ "\n"⟩

def cannotOpen (path reason : String) : Report :=
  ⟨.exit 2, "", "keel: cannot open " ++ path ++ ": " ++ reason ++ "\n"⟩

/-- How sessions behave under the given settings, in a process that starts with the given limit.
The settings raise the limit of the process and never lower it. -/
def setupOf (start : Nat) (settings : Settings) (verbose : Bool) : Setup where
  style := .plain
  limit := max start settings.recursionLimit
  logging := verbose || settings.logLevel ≤ Settings.debugLevel

/-- The exit code after a loop with so many errors; an interactive loop always ends well. -/
def exitCodeOf (interactive : Bool) (errors : Nat) : Nat :=
  if interactive || errors = 0 then 0 else 1

def runText (start : Nat) (settings : Settings) (verbose interactive : Bool) (text : String) :
    Report :=
  let session := Session.start (.ofString text)
  match Session.run (setupOf start settings verbose) interactive settings.prompt session with
  | .ok errors s =>
    ⟨.exit (exitCodeOf interactive errors), byteText s.machine.output, journalText s⟩
  | .error fault s => ⟨.broken (.unrecovered fault), byteText s.machine.output, journalText s⟩

/-- What keeps a command from starting, if anything does. -/
def obstacle? (settings : Settings) (path : Option String) : Option Breakdown :=
  if Settings.greatestLimit < settings.recursionLimit then some .limitTooLarge
  else if path.any (·.toList.contains '\x00') then some .nulInPath
  else none

structure Surroundings where
  environment : Environment
  files : Directory
  input : String
  /-- Whether the standard input is a terminal. -/
  terminal : Bool

/-- Runs a command with the given arguments, in a process that starts with the given limit. A new
process has the limit `Settings.startLimit`, and one that has run a command under the default
settings has theirs. -/
def answer (arguments : List String) (around : Surroundings)
    (start : Nat := Settings.defaultLimit) : Report :=
  let settings := Settings.ofEnvironment around.environment
  match Request.ofArguments arguments with
  | .help => ⟨.exit 0, helpText, ""⟩
  | .version => ⟨.exit 0, versionText, ""⟩
  | .refused complaint => complain complaint
  | .run path verbose =>
    match obstacle? settings path, path with
    | some cause, _ => ⟨.broken cause, "", ""⟩
    | none, none => runText start settings verbose around.terminal around.input
    | none, some path =>
      match around.files.openFile path with
      | .ok content => runText start settings verbose false content
      | .error fault => cannotOpen path fault.message

end Keel.Command
