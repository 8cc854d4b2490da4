import Keel.Form.Basic
import Keel.Primitive.Basic
import Keel.Text.Quoted

/-! # Faults

Everything that can go wrong, told by cause. A fault has a kind, which names its
class, and a message, which tells the cause in words. Values that a message
quotes are carried as the text to show.
-/

namespace Keel

/-- What is wrong with a text that is no datum. -/
inductive Malformation where
  /-- The text ends inside a list that was opened on the given line. -/
  | unclosedList (opened : Int)
  /-- The text ends after a quote mark. -/
  | nothingQuoted
  | unmatchedClose
  | leadingDot
  | missingTail
  | strayDot
  | unclosedTail
  | malformedInteger (token : String)
  | unknownLiteral (token : String)
  deriving DecidableEq, Repr

/-- The wrong number or kind of operands, parameters or arguments. -/
inductive Misuse where
  /-- What belongs to the named construct is no proper list. -/
  | improperList (construct : String)
  | badShape (form : Form)
  | badBinding (form : Form)
  | functionName
  | notDefinable (shown : String)
  | notAssignable (shown : String)
  | notParameter (form : Form) (shown : String)
  | duplicateParameter (form : Form)
  | notFunction (shown : String)
  | wrongCount (function : String) (expected actual : Nat)
  | notBindable (shown : String)
  | badCall (primitive : Primitive)
  | notCharacterCode (shown : String)
  | divisionByZero
  deriving DecidableEq, Repr

inductive Unbound where
  | read (name : String)
  | assigned (name : String)
  | uninitialised (name : String)
  deriving DecidableEq, Repr

inductive Fault where
  /-- The reader refused a text, having reached the given line. -/
  | malformed (line : Int) (cause : Malformation)
  | misuse (cause : Misuse)
  | unbound (cause : Unbound)
  | endOfInput
  /-- A character was put back although the slot was taken. -/
  | slotTaken (held refused : Char)
  /-- More constructs were open at once than the limit admits. -/
  | tooDeep
  /-- An integer has too many digits for a numeral. -/
  | tooLong
  deriving DecidableEq, Repr

def Malformation.message : Malformation → String
  | .unclosedList opened => "Unexpected end of input in list opened on line " ++ toString opened
  | .nothingQuoted => "Unexpected end of input after quote"
  | .unmatchedClose => "Unmatched ')'"
  | .leadingDot => "'.' must follow at least one list element"
  | .missingTail => "Missing expression after '.'"
  | .strayDot => "Unexpected '.'"
  | .unclosedTail => "Expected ')' after dotted tail"
  | .malformedInteger token => "Malformed integer literal " ++ Text.quote token
  | .unknownLiteral token => "Unknown literal " ++ Text.quote token

def Misuse.message : Misuse → String
  | .improperList construct => construct ++ ": expected a proper list"
  | .badShape form => form.name ++ ": expected " ++ form.shape
  | .badBinding form => form.name ++ ": each binding must be (name expr)"
  | .functionName => "define: function name must be a symbol"
  | .notDefinable shown => "define: " ++ shown ++ " is not a symbol"
  | .notAssignable shown => "set!: first argument must be a symbol, got " ++ shown
  | .notParameter form shown => form.name ++ ": parameter " ++ shown ++ " is not a symbol"
  | .duplicateParameter form => form.name ++ ": duplicate parameter name"
  | .notFunction shown => "application: cannot apply non-function " ++ shown
  | .wrongCount function expected actual =>
    function ++ ": expected " ++ toString expected ++ " argument(s), got " ++ toString actual
  | .notBindable shown => "Cannot bind " ++ shown ++ ": not a symbol"
  | .badCall primitive => primitive.callForm
  | .notCharacterCode shown =>
    Primitive.itoc.callForm ++ ": " ++ shown ++ " is not a character code"
  | .divisionByZero => (Primitive.arithmetic .div).callForm ++ ": division by zero"

def Unbound.message : Unbound → String
  | .read name => "Unbound variable " ++ name
  | .assigned name => "Cannot set unbound symbol " ++ name
  | .uninitialised name => "Variable " ++ name ++ " used before initialisation"

namespace Fault

def message : Fault → String
  | .malformed line cause => "line " ++ toString line ++ ": " ++ cause.message
  | .misuse cause => cause.message
  | .unbound cause => cause.message
  | .endOfInput => "No more input"
  | .slotTaken held refused =>
    "pushback slot already holds " ++ Text.quote held.toString ++ "; cannot push " ++
      Text.quote refused.toString
  | .tooDeep => "maximum recursion depth exceeded"
  | .tooLong => "Exceeds the limit (4300 digits) for integer string conversion"

def kind : Fault → String
  | .malformed .. => "KeelParseError"
  | .misuse _ => "KeelTypeError"
  | .unbound _ => "KeelUnboundVariable"
  | .endOfInput => "EndOfInput"
  | .slotTaken .. => "RuntimeError"
  | .tooDeep => "RecursionError"
  | .tooLong => "ValueError"

end Fault

/-- The outcome of what may be given up for an integer without a numeral. -/
def unlessTooLong {α : Type} : Except Fault α → Except Fault (Option α)
  | .ok a => .ok (some a)
  | .error .tooLong => .ok none
  | .error fault => .error fault

@[simp] theorem unlessTooLong_map {α β : Type} (f : α → β) (x : Except Fault α) :
    unlessTooLong (f <$> x) = Option.map f <$> unlessTooLong x := by
  cases x with
  | ok a => rfl
  | error fault => cases fault <;> rfl

/-! ## Faults at limits -/

/-- A limit was met: of nesting, or of the digits of a numeral. -/
def Fault.Exceeded (fault : Fault) : Prop :=
  fault = .tooDeep ∨ fault = .tooLong

def Bounded {α : Type} (x : Except Fault α) : Prop :=
  ∀ fault, x = .error fault → fault.Exceeded

namespace Bounded

variable {α β : Type}

theorem pure (v : α) : Bounded (Pure.pure v) :=
  fun _ h => nomatch h

theorem tooDeep : Bounded (throw .tooDeep : Except Fault α) := by
  rintro fault ⟨⟩
  exact .inl rfl

theorem bind {x : Except Fault α} {k : α → Except Fault β} (hx : Bounded x)
    (hk : ∀ v, Bounded (k v)) : Bounded (x >>= k) := by
  cases x with
  | error fault =>
    rintro fault' ⟨⟩
    exact hx fault rfl
  | ok v => exact hk v

theorem unlessTooLong {x : Except Fault α} (hx : Bounded x) : Bounded (unlessTooLong x) := by
  cases x with
  | ok v => exact pure _
  | error fault =>
    rcases hx fault rfl with rfl | rfl
    · exact tooDeep
    · exact pure _

end Bounded

/-- The second outcome is the first one, unless the first is a failure for depth. -/
def Outlasts {α : Type} (x y : Except Fault α) : Prop :=
  x = .error .tooDeep ∨ y = x

namespace Outlasts

variable {α β : Type} {x y : Except Fault α}

theorem refl (x : Except Fault α) : Outlasts x x :=
  .inr rfl

theorem bind {f g : α → Except Fault β} (hxy : Outlasts x y) (hfg : ∀ a, Outlasts (f a) (g a)) :
    Outlasts (x >>= f) (y >>= g) := by
  rcases hxy with rfl | rfl
  · exact .inl rfl
  · cases y with
    | error fault => exact refl _
    | ok a => exact hfg a

theorem unlessTooLong (hxy : Outlasts x y) :
    Outlasts (unlessTooLong x) (Keel.unlessTooLong y) := by
  rcases hxy with rfl | rfl
  · exact .inl rfl
  · exact refl _

end Outlasts

end Keel
