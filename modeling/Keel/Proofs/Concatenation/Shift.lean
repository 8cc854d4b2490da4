import Keel.Proofs.Reading

/-! # Reading from a later line

The reader counts lines and tells them, but it never looks at their number. So on
a source whose lines are numbered from elsewhere it does the same, and only the
lines in its complaints are others.
-/

namespace Keel

/-- The same source with its lines numbered `k` higher. -/
def Source.shift (k : Int) (s : Source) : Source :=
  { s with line := s.line + k }

def Malformation.shift (k : Int) : Malformation → Malformation
  | .unclosedList opened => .unclosedList (opened + k)
  | cause => cause

def Fault.shift (k : Int) : Fault → Fault
  | .malformed line cause => .malformed (line + k) (cause.shift k)
  | fault => fault

namespace Source

variable (k : Int) (s : Source)

@[simp] theorem unread_shift : (s.shift k).unread = s.unread := rfl

@[simp] theorem line_shift : (s.shift k).line = s.line + k := rfl

theorem lineAfter_add (line : Int) (c : Char) :
    lineAfter (line + k) c = lineAfter line c + k := by
  unfold lineAfter
  split
  · omega
  · rfl

@[simp] theorem next_shift : (s.shift k).next = (s.next.1, s.next.2.shift k) := by
  rcases s with ⟨_ | c, _ | ⟨d, rest⟩, line⟩ <;> simp [next, shift, lineAfter_add]

theorem dropBlanks_add (b : Bool) (cs : List Char) (line : Int) :
    dropBlanks b cs (line + k) = ((dropBlanks b cs line).1, (dropBlanks b cs line).2 + k) := by
  fun_induction dropBlanks b cs line with
  | case1 => rfl
  | case2 cs line ih =>
    rw [← ih, dropBlanks, if_pos rfl]
    congr 1
    omega
  | case3 c cs line hc ih => rw [← ih, dropBlanks, if_neg hc]
  | case4 cs line ih => rw [← ih, dropBlanks, if_pos rfl]
  | case5 c cs line hc hb ih => rw [← ih, dropBlanks, if_neg hc, if_pos hb, lineAfter_add]
  | case6 c cs line hc hb => rw [dropBlanks, if_neg hc, if_neg hb]

@[simp] theorem skipBlanks_shift : (s.shift k).skipBlanks = s.skipBlanks.shift k := by
  simp only [skipBlanks, unread_shift, line_shift, dropBlanks_add]
  rfl

@[simp] theorem nextSignificant_shift :
    (s.shift k).nextSignificant = (s.nextSignificant.1, s.nextSignificant.2.shift k) := by
  simp only [nextSignificant, skipBlanks_shift, next_shift]

theorem fillSlot_shift : (s.shift k).fillSlot = s.fillSlot.shift k := by
  rcases s with ⟨_ | c, _ | ⟨d, rest⟩, line⟩ <;> rfl

@[simp] theorem token_shift : (s.shift k).token = (s.token.1, s.token.2.shift k) := by
  simp only [token, unread_shift, line_shift]
  rw [← fillSlot_shift]
  rfl

end Source

theorem Token.ofChars_add (k : Int) (cs : List Char) (line : Int) :
    ofChars cs (line + k) = (ofChars cs line).mapError (Fault.shift k) := by
  unfold ofChars
  repeat' split
  all_goals rfl

namespace Datum

def Opening.shift (k : Int) : Opening → Opening
  | .list line items => .list (line + k) items
  | o => o

namespace Progress

def shift (k : Int) : Progress → Progress
  | .more stack s => .more (stack.map (Opening.shift k)) (s.shift k)
  | .done d s => .done d (s.shift k)
  | .failed fault s => .failed (fault.shift k) (s.shift k)

variable (k : Int) (limit : Nat) (stack : List Opening) (s : Source)

theorem opening_shift (o : Opening) :
    opening limit (o.shift k) (stack.map (Opening.shift k)) (s.shift k) =
      (opening limit o stack s).shift k := by
  unfold opening
  rw [List.length_map]
  split <;> rfl

theorem deliver_shift (d : Datum) :
    deliver (stack.map (Opening.shift k)) d (s.shift k) = (deliver stack d s).shift k := by
  induction stack generalizing d s with
  | nil => rfl
  | cons o stack ih =>
    cases o with
    | list line items => rfl
    | quote => exact ih s _
    | tail items =>
      simp only [List.map_cons, Opening.shift, deliver, Source.nextSignificant_shift]
      rcases s.nextSignificant with ⟨_ | c, after⟩
      · rfl
      · by_cases hc : c = ')'
        · subst hc
          exact ih after _
        · simp only [Option.some.injEq, hc, imp_self]
          rfl

theorem atEnd_shift : atEnd (stack.map (Opening.shift k)) (s.shift k) = (atEnd stack s).shift k := by
  rcases stack with _ | ⟨⟨line, items⟩ | items | _, stack⟩ <;> rfl

theorem atClose_shift :
    atClose (stack.map (Opening.shift k)) (s.shift k) = (atClose stack s).shift k := by
  rcases stack with _ | ⟨⟨line, items⟩ | items | _, stack⟩
  · rfl
  · exact deliver_shift k stack s _
  · rfl
  · rfl

theorem atDot_shift : atDot (stack.map (Opening.shift k)) (s.shift k) = (atDot stack s).shift k := by
  rcases stack with _ | ⟨⟨line, _ | ⟨item, items⟩⟩ | items | _, stack⟩ <;> rfl

theorem atToken_shift :
    atToken (stack.map (Opening.shift k)) (s.shift k) = (atToken stack s).shift k := by
  simp only [atToken, Source.token_shift, Source.line_shift, Token.ofChars_add]
  cases Token.ofChars s.token.1 s.token.2.line with
  | ok t =>
    cases t with
    | datum d => exact deliver_shift k stack _ d
    | dot => exact atDot_shift k stack _
  | error fault => rfl

end Progress

variable (k : Int) (limit : Nat) (stack : List Opening) (s : Source)

theorem advance_shift :
    advance limit (stack.map (Opening.shift k)) (s.shift k) = (advance limit stack s).shift k := by
  rcases hn : s.skipBlanks.next with ⟨_ | c, after⟩
  · simp only [advance, Source.skipBlanks_shift, Source.next_shift, hn]
    exact Progress.atEnd_shift k stack after
  · simp only [advance, Source.skipBlanks_shift, Source.next_shift, hn]
    split
    · exact Progress.opening_shift k limit stack after (.list after.line [])
    split
    · exact Progress.atClose_shift k stack after
    split
    · exact Progress.opening_shift k limit stack after .quote
    · exact Progress.atToken_shift k stack s.skipBlanks

theorem resume_shift : resume limit (stack.map (Opening.shift k)) (s.shift k) =
    ((resume limit stack s).1.mapError (Fault.shift k), (resume limit stack s).2.shift k) := by
  fun_induction resume limit stack s with
  | case1 stack s stack' t ha ih =>
    rw [resume_eq, advance_shift, ha]
    exact ih
  | case2 stack s d t ha =>
    rw [resume_eq, advance_shift, ha]
    rfl
  | case3 stack s fault t ha =>
    rw [resume_eq, advance_shift, ha]
    rfl

/-- Numbering the lines differently makes no difference but for the lines that faults tell. -/
theorem read_shift : read limit (s.shift k) =
    ((read limit s).1.mapError (Fault.shift k), (read limit s).2.shift k) :=
  resume_shift k limit [] s

theorem read_shift_of_eq {result : Except Fault Datum} {rest : Source} {s : Source} {limit : Nat}
    (k : Int) (h : read limit s = (result, rest)) :
    read limit (s.shift k) = (result.mapError (Fault.shift k), rest.shift k) := by
  rw [read_shift, h]

end Datum

end Keel
