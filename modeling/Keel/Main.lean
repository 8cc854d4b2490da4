import Keel.Command.Run
import Keel.Session.Terminal

/-! # The command line

The thin layer that connects commands to the process: arguments, environment,
files and the standard streams.
-/

namespace Keel.Command

def textOfBytes (bytes : ByteArray) : String :=
  String.ofList (bytes.toList.map fun b => Char.ofNat b.toNat)

def bytesOfText (s : String) : ByteArray :=
  ⟨((byteText s).toList.map fun c => c.toNat.toUInt8).toArray⟩

def readEnvironment : IO Environment :=
  ["KEEL_PROMPT", "KEEL_LOG_LEVEL", "KEEL_RECURSION_LIMIT"].filterMapM fun name => do
    return (← IO.getEnv name).map (name, ·)

partial def readAll (input : IO.FS.Stream) (sofar : ByteArray) : IO ByteArray := do
  let chunk ← input.read 65536
  if chunk.isEmpty then return sofar else readAll input (sofar ++ chunk)

/-- Reads a line with its newline; it is empty at the end of the input. -/
partial def readLine (input : IO.FS.Stream) (sofar : ByteArray) : IO ByteArray := do
  let byte ← input.read 1
  if byte.isEmpty || byte.toList = [10] then return sofar ++ byte
  else readLine input (sofar ++ byte)

def writeOut (s : String) : IO Unit := do
  let out ← IO.getStdout
  out.write (bytesOfText s)
  out.flush

/-- The exit code of the process; a command that broke off says why. -/
def finish : Ending → IO UInt32
  | .exit code => return code.toUInt32
  | .broken cause => do
    (← IO.getStderr).putStr ("keel: " ++ cause.message ++ "\n")
    return 1

def deliver (r : Report) : IO UInt32 := do
  writeOut r.stdout
  (← IO.getStderr).putStr r.stderr
  finish r.ending

def handOver (session : Session) : IO Unit := do
  writeOut session.machine.output
  (← IO.getStderr).putStr (journalText session)

/-- Goes on with an interactive session that has prompted for a round. -/
partial def converse (setup : Setup) (prompt : String) (ended : Bool) (session : Session) :
    IO UInt32 := do
  match Session.nextRound setup ended session with
  | none =>
    let line ← readLine (← IO.getStdin) .empty
    converse setup prompt line.isEmpty (session.hear (textOfBytes line).toList)
  | some (.ok .finished after) =>
    handOver after
    finish (.exit 0)
  | some (.error fault after) =>
    handOver after
    finish (.broken (.unrecovered fault))
  | some (.ok _ after) =>
    handOver after
    writeOut prompt
    converse setup prompt ended after.cleared

/-- Why a file could not be opened, as the system says it. -/
def reasonOf : IO.Error → String
  | .noFileOrDirectory .. => OpenFault.missing.message
  | .inappropriateType _ 21 _ => OpenFault.isDirectory.message
  | .inappropriateType .. => OpenFault.notDirectory.message
  | fault => toString fault

def command (arguments : List String) : IO UInt32 := do
  let environment ← readEnvironment
  let settings := Settings.ofEnvironment environment
  let start := Settings.startLimit
  let input ← IO.getStdin
  match Request.ofArguments arguments with
  | .run path verbose =>
    match obstacle? settings path, path with
    | some cause, _ => finish (.broken cause)
    | none, none =>
      if ← input.isTty then
        writeOut settings.prompt
        converse (setupOf start settings verbose) settings.prompt false (.start (.ofString ""))
      else
        deliver (runText start settings verbose false (textOfBytes (← readAll input .empty)))
    | none, some path =>
      match ← (IO.FS.readBinFile path).toBaseIO with
      | .ok bytes => deliver (runText start settings verbose false (textOfBytes bytes))
      | .error fault => deliver (cannotOpen path (reasonOf fault))
  | _ => deliver (answer arguments ⟨environment, [], "", false⟩ start)

end Keel.Command

def main (arguments : List String) : IO UInt32 :=
  Keel.Command.command arguments
