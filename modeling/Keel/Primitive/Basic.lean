/-! # Primitives

The functions that the language provides. Each checks the number and the kind
of its arguments and refuses a bad call by quoting the form of a good one.
-/

namespace Keel

inductive Arithmetic where
  | add
  | sub
  | mul
  | div
  | less
  | greater
  | same
  deriving DecidableEq, Repr

inductive Test where
  | atom
  | symbol
  | integer
  | null
  deriving DecidableEq, Repr

inductive Primitive where
  | getchar
  | print
  | itoc
  | cat
  | arithmetic (op : Arithmetic)
  | list
  | pair
  | car
  | cdr
  | eq
  | test (kind : Test)
  deriving DecidableEq, Repr

def Arithmetic.name : Arithmetic → String
  | .add => "+"
  | .sub => "-"
  | .mul => "*"
  | .div => "/"
  | .less => "<"
  | .greater => ">"
  | .same => "="

def Test.name : Test → String
  | .atom => "atom?"
  | .symbol => "sym?"
  | .integer => "int?"
  | .null => "null?"

namespace Primitive

/-- All primitives, in the order in which the basis binds them. -/
def all : List Primitive :=
  [.getchar, .print, .itoc, .cat,
    .arithmetic .add, .arithmetic .sub, .arithmetic .mul, .arithmetic .div,
    .arithmetic .less, .arithmetic .greater, .arithmetic .same,
    .list, .pair, .car, .cdr, .eq,
    .test .atom, .test .symbol, .test .integer, .test .null]

def name : Primitive → String
  | .getchar => "getchar"
  | .print => "print"
  | .itoc => "itoc"
  | .cat => "cat"
  | .arithmetic op => op.name
  | .list => "list"
  | .pair => "pair"
  | .car => "car"
  | .cdr => "cdr"
  | .eq => "eq"
  | .test kind => kind.name

/-- The arguments of a good call, as a bad call is told. -/
def operands : Primitive → String
  | .getchar => ""
  | .print => " value"
  | .itoc => " int"
  | .cat => " sym sym"
  | .arithmetic _ => " int int"
  | .list => " value..."
  | .pair => " a b"
  | .car => " non-nil-pair"
  | .cdr => " non-nil-pair"
  | .eq => " a b"
  | .test _ => " value"

def callForm (p : Primitive) : String :=
  "(" ++ p.name ++ p.operands ++ ")"

def ofName? (s : String) : Option Primitive :=
  all.find? (·.name = s)

theorem mem_all (p : Primitive) : p ∈ all := by
  rcases p with _ | _ | _ | _ | op | _ | _ | _ | _ | _ | kind
  case arithmetic => cases op <;> decide
  case test => cases kind <;> decide
  all_goals decide

end Primitive

end Keel
