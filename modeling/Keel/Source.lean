import Keel.Text.Quoted

/-! # Character sources

A source is a text that is read one character at a time. One character can be
put back, and a counter holds the number of the current line. What is still to
be read is the view `unread`: the character put back, if any, then the rest.
-/

namespace Keel

structure Source where
  /-- The character put back, which is read next. -/
  slot : Option Char
  /-- The text behind the slot. -/
  rest : List Char
  /-- The number of the current line. -/
  line : Int
  deriving DecidableEq, Inhabited

namespace Source

def ofChars (cs : List Char) : Source :=
  ⟨none, cs, 1⟩

def ofString (s : String) : Source :=
  ofChars s.toList

/-- The characters still to be read. -/
def unread (s : Source) : List Char :=
  s.slot.toList ++ s.rest

def lineAfter (line : Int) (c : Char) : Int :=
  if c = '\n' then line + 1 else line

/-- Reads one character; at the end there is none and nothing changes. -/
def next : Source → Option Char × Source
  | ⟨some c, rest, line⟩ => (some c, ⟨none, rest, lineAfter line c⟩)
  | ⟨none, c :: rest, line⟩ => (some c, ⟨none, rest, lineAfter line c⟩)
  | ⟨none, [], line⟩ => (none, ⟨none, [], line⟩)

/-- Moves the next character into the slot. -/
def fillSlot : Source → Source
  | ⟨none, c :: rest, line⟩ => ⟨some c, rest, line⟩
  | s => s

/-- Looks at the next character, which stays unread in the slot. -/
def peek (s : Source) : Option Char × Source :=
  (s.fillSlot.slot, s.fillSlot)

/-- Puts a character back into the slot, unless the slot is taken by the character returned. -/
def putBack (c : Char) (s : Source) : Except Char Source :=
  match s.slot with
  | some held => .error held
  | none => .ok ⟨some c, s.rest, if c = '\n' then s.line - 1 else s.line⟩

/-- What follows the first newline of a text, and the line there. -/
def dropLine : List Char → Int → List Char × Int
  | [], line => ([], line)
  | c :: cs, line => if c = '\n' then (cs, line + 1) else dropLine cs line

def skipLine (s : Source) : Source :=
  let (rest, line) := dropLine s.unread s.line
  ⟨none, rest, line⟩

def describe (s : Source) : String :=
  let held := match s.slot with
    | some c => Text.quote c.toString
    | none => "None"
  "<CharacterSource line=" ++ toString s.line ++ " pushed=" ++ held ++ ">"

@[simp] theorem unread_mk_none (rest : List Char) (line : Int) :
    (⟨none, rest, line⟩ : Source).unread = rest := rfl

@[simp] theorem unread_ofChars (cs : List Char) : (ofChars cs).unread = cs := rfl

theorem next_eq_none_iff {s : Source} : s.next.1 = none ↔ s.unread = [] := by
  rcases s with ⟨_ | c, _ | ⟨d, rest⟩, line⟩ <;> simp [next, unread]

theorem exists_unread_eq_cons {s s' : Source} {c : Char} (h : s.next = (some c, s')) :
    ∃ rest, s.unread = c :: rest := by
  rcases s with ⟨_ | d, _ | ⟨e, rest⟩, line⟩ <;> simp_all [next, unread]

theorem next_of_unread_eq_cons {s : Source} {c : Char} {cs : List Char} (h : s.unread = c :: cs) :
    s.next = (some c, ⟨none, cs, lineAfter s.line c⟩) := by
  rcases s with ⟨_ | d, _ | ⟨e, rest⟩, line⟩ <;> simp_all [next, unread]

theorem next_of_unread_eq_nil {s : Source} (h : s.unread = []) : s.next = (none, s) := by
  rcases s with ⟨_ | d, _ | ⟨e, rest⟩, line⟩ <;> simp_all [next, unread]

@[simp] theorem unread_fillSlot (s : Source) : s.fillSlot.unread = s.unread := by
  rcases s with ⟨_ | d, _ | ⟨e, rest⟩, line⟩ <;> rfl

@[simp] theorem line_fillSlot (s : Source) : s.fillSlot.line = s.line := by
  rcases s with ⟨_ | d, _ | ⟨e, rest⟩, line⟩ <;> rfl

end Source

end Keel
