/-! # Special forms

The forms whose operands are not evaluated before the form is entered. A list
is such a form exactly when its head is a symbol that names one.
-/

namespace Keel

inductive Form where
  | quote
  | ifElse
  | cond
  | and
  | or
  | lambda
  | define
  | assign
  | begin
  | letIn
  | letStar
  | letRec
  deriving DecidableEq, Repr

namespace Form

def all : List Form :=
  [.quote, .ifElse, .cond, .and, .or, .lambda, .define, .assign, .begin, .letIn, .letStar, .letRec]

def name : Form → String
  | .quote => "quote"
  | .ifElse => "if"
  | .cond => "cond"
  | .and => "and"
  | .or => "or"
  | .lambda => "lambda"
  | .define => "define"
  | .assign => "set!"
  | .begin => "begin"
  | .letIn => "let"
  | .letStar => "let*"
  | .letRec => "letrec"

def shape : Form → String
  | .quote => "(quote datum)"
  | .ifElse => "(if test then [else])"
  | .cond => "(cond (test body...) ...)"
  | .and => "(and expr...)"
  | .or => "(or expr...)"
  | .lambda => "(lambda (params...) body...)"
  | .define => "(define name value)"
  | .assign => "(set! var value)"
  | .begin => "(begin expr...)"
  | .letIn => "(let ((name expr) ...) body...)"
  | .letStar => "(let* ((name expr) ...) body...)"
  | .letRec => "(letrec ((name expr) ...) body...)"

def ofName? (s : String) : Option Form :=
  all.find? (·.name = s)

theorem mem_all (f : Form) : f ∈ all := by
  cases f <;> decide

theorem ofName?_eq_some_iff {s : String} {f : Form} : ofName? s = some f ↔ f.name = s := by
  constructor
  · intro h
    simpa using List.find?_some h
  · rintro rfl
    cases f <;> decide

end Form

end Keel
