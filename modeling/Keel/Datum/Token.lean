import Keel.Datum.Basic
import Keel.Fault
import Keel.Numeral
import Keel.Source
import Keel.Text.Blank

/-! # Tokens

A token is a longest run of characters that are not delimiters. It is a numeral,
a literal, the lone dot of dotted lists, or a symbol. Between tokens there may be
blanks and comments; a comment runs from a semicolon to the end of its line.
-/

namespace Keel

/-- The characters that end a token: blanks, parentheses, the quote mark, the semicolon. -/
def isDelimiter (c : Char) : Bool :=
  Text.isBlank c || c == '(' || c == ')' || c == '\'' || c == ';'

namespace Source

/-- Drops the leading blanks and comments of a text, counting its lines. -/
def dropBlanks : (inComment : Bool) → List Char → Int → List Char × Int
  | _, [], line => ([], line)
  | true, c :: cs, line =>
    if c = '\n' then dropBlanks false cs (line + 1) else dropBlanks true cs line
  | false, c :: cs, line =>
    if c = ';' then dropBlanks true cs line
    else if Text.isBlank c then dropBlanks false cs (lineAfter line c)
    else (c :: cs, line)

/-- Reads on to the first significant character, which stays unread. -/
def skipBlanks (s : Source) : Source :=
  let (rest, line) := dropBlanks false s.unread s.line
  ⟨none, rest, line⟩

def nextSignificant (s : Source) : Option Char × Source :=
  s.skipBlanks.next

/-- Reads a token; the delimiter behind it goes into the slot. -/
def token (s : Source) : List Char × Source :=
  (s.unread.takeWhile (!isDelimiter ·),
    fillSlot ⟨none, s.unread.dropWhile (!isDelimiter ·), s.line⟩)

end Source

inductive Token where
  | datum (d : Datum)
  | dot
  deriving DecidableEq, Repr

namespace Token

/-- Classifies a token that ends on the given line. -/
def ofChars (cs : List Char) (line : Int) : Except Fault Token :=
  if Numeral.isNumeral cs then
    if (Numeral.digits cs).length ≤ Numeral.maxDigits then .ok (.datum (.int (Numeral.value cs)))
    else .error .tooLong
  else if Numeral.startsNumeral cs then
    .error (.malformed line (.malformedInteger (String.ofList cs)))
  else if cs = ['#', 't'] then .ok (.datum (.bool true))
  else if cs = ['#', 'f'] then .ok (.datum (.bool false))
  else if cs.head? = some '#' then .error (.malformed line (.unknownLiteral (String.ofList cs)))
  else if cs = ['n', 'i', 'l'] then .ok (.datum .nil)
  else if cs = ['.'] then .ok .dot
  else .ok (.datum (.symbol (String.ofList cs)))

end Token

namespace Source

theorem length_dropBlanks_le (b : Bool) (cs : List Char) (line : Int) :
    (dropBlanks b cs line).1.length ≤ cs.length := by
  fun_induction dropBlanks b cs line <;> simp_all <;> omega

theorem length_unread_skipBlanks_le (s : Source) : s.skipBlanks.unread.length ≤ s.unread.length := by
  simpa [skipBlanks, unread] using length_dropBlanks_le false s.unread s.line

theorem length_unread_of_next {s s' : Source} {c : Char} (h : s.next = (some c, s')) :
    s'.unread.length + 1 = s.unread.length := by
  rcases s with ⟨_ | d, _ | ⟨e, rest⟩, line⟩ <;> simp [next] at h <;> obtain ⟨-, rfl⟩ := h <;>
    simp [unread]

theorem length_unread_nextSignificant_le (s : Source) :
    s.nextSignificant.2.unread.length ≤ s.unread.length := by
  have h := length_unread_skipBlanks_le s
  revert h
  rw [nextSignificant]
  generalize s.skipBlanks = t
  rcases t with ⟨_ | d, _ | ⟨e, rest⟩, line⟩ <;> simp [next, unread] <;> omega

theorem unread_token (s : Source) : s.token.1 ++ s.token.2.unread = s.unread := by
  simp [token]

theorem head_dropBlanks {b : Bool} {cs rest : List Char} {line line' : Int} {c : Char}
    (h : dropBlanks b cs line = (c :: rest, line')) : Text.isBlank c = false ∧ c ≠ ';' := by
  fun_induction dropBlanks b cs line <;> simp_all

theorem head_unread_skipBlanks {s : Source} {c : Char} {rest : List Char}
    (h : s.skipBlanks.unread = c :: rest) : Text.isBlank c = false ∧ c ≠ ';' :=
  have : dropBlanks false s.unread s.line = (c :: rest, s.skipBlanks.line) := Prod.ext h rfl
  head_dropBlanks this

theorem length_unread_token_lt {s : Source} {c : Char} {rest : List Char}
    (h : s.unread = c :: rest) (hc : isDelimiter c = false) :
    s.token.2.unread.length < s.unread.length := by
  have := congrArg List.length (unread_token s)
  have : 0 < s.token.1.length := by simp [token, h, hc]
  simp only [List.length_append] at *
  omega

end Source

end Keel
