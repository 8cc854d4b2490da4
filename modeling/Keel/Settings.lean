import Keel.Numeral
import Keel.Text.Blank
import Keel.Text.DecimalDigit

/-! # Settings

A session takes its prompt, the level of its log and the recursion limit from
variables of the environment. A setting that cannot be understood is the default.
-/

namespace Keel

abbrev Environment := List (String × String)

structure Settings where
  prompt : String
  logLevel : Nat
  recursionLimit : Nat
  deriving DecidableEq, Repr

namespace Settings

def defaultLevel : Nat := 30

def defaultLimit : Nat := 10000

/-- The limit of a new process. -/
def startLimit : Nat := 1000

def leastLimit : Nat := 1000

/-- The greatest limit that a command can run under. -/
def greatestLimit : Nat := 2147483647

/-- The level from which on everything is logged. -/
def debugLevel : Nat := 10

def levels : List (String × Nat) :=
  [("CRITICAL", 50), ("FATAL", 50), ("ERROR", 40), ("WARNING", 30), ("WARN", 30), ("INFO", 20),
    ("DEBUG", 10), ("NOTSET", 0)]

/-- The upper-case form of a character, if it is a letter of ASCII. -/
def upper (c : Char) : Char :=
  if c = 'ı' then 'I' else if c = 'ſ' then 'S' else c.toUpper

/-- The level that a text names, whatever its case and the blanks around it. -/
def levelOf (s : String) : Nat :=
  let name := String.ofList ((Text.trim Text.isBlank s.toList).map upper)
  (levels.lookup name).getD defaultLevel

/-- The values of digits in which single underscores may stand between two digits. -/
def digitsOf? : List Char → Option (List Nat)
  | [] => none
  | [c] => (Text.digitValue? c).map ([·])
  | c :: '_' :: cs => do return (← Text.digitValue? c) :: (← digitsOf? cs)
  | c :: cs => do return (← Text.digitValue? c) :: (← digitsOf? cs)

/-- The integer that a text writes in decimal digits of any script, with one sign or none. -/
def integerOf? (s : String) : Option Int := do
  let (negative, cs) := match Text.trim Text.isWhiteSpace s.toList with
    | '-' :: cs => (true, cs)
    | '+' :: cs => (false, cs)
    | cs => (false, cs)
  let digits ← digitsOf? cs
  guard (digits.length ≤ Numeral.maxDigits)
  let n : Nat := digits.foldl (fun n d => 10 * n + d) 0
  return if negative then -n else n

/-- The limit that a text sets; too small a limit is raised to the least one. -/
def limitOf (s : String) : Nat :=
  match integerOf? s with
  | some i => max i.toNat leastLimit
  | none => defaultLimit

def ofEnvironment (env : Environment) : Settings where
  prompt := (env.lookup "KEEL_PROMPT").getD "> "
  logLevel := (env.lookup "KEEL_LOG_LEVEL").elim defaultLevel levelOf
  recursionLimit := (env.lookup "KEEL_RECURSION_LIMIT").elim defaultLimit limitOf

end Settings

end Keel
