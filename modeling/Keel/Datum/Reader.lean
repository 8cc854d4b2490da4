import Keel.Datum.Token

/-! # Reading data

The reader goes through a source token by token and keeps the constructs that
are still open on a stack, innermost first. `advance` deals with one token;
`read` repeats it until the stack is empty and a datum is complete.
-/

namespace Keel.Datum

/-- A construct that is open, with the items read so far, last first. -/
inductive Opening where
  /-- A list opened on the given line. -/
  | list (line : Int) (items : List Datum)
  /-- A list behind its dot. -/
  | tail (items : List Datum)
  /-- A quote mark. -/
  | quote
  deriving DecidableEq, Repr

/-- Where the reader stands after a token. -/
inductive Progress where
  | more (stack : List Opening) (source : Source)
  | done (d : Datum) (source : Source)
  | failed (fault : Fault) (source : Source)
  deriving DecidableEq

namespace Progress

def source : Progress → Source
  | .more _ s => s
  | .done _ s => s
  | .failed _ s => s

def malformed (cause : Malformation) (source : Source) : Progress :=
  .failed (.malformed source.line cause) source

/-- Opens a construct, unless `limit` constructs are open. -/
def opening (limit : Nat) (o : Opening) (stack : List Opening) (source : Source) : Progress :=
  if stack.length < limit then .more (o :: stack) source else .failed .tooDeep source

/-- Hands a complete datum to the innermost open construct. -/
def deliver : List Opening → Datum → Source → Progress
  | [], d, source => .done d source
  | .list line items :: stack, d, source => .more (.list line (d :: items) :: stack) source
  | .quote :: stack, d, source => deliver stack (Datum.list [.symbol Form.quote.name, d]) source
  | .tail items :: stack, d, source =>
    match source.nextSignificant with
    | (some ')', after) => deliver stack (reverseListTo items d) after
    | (_, after) => malformed .unclosedTail after

def atEnd (stack : List Opening) (source : Source) : Progress :=
  match stack with
  | [] => .failed .endOfInput source
  | .list line _ :: _ => malformed (.unclosedList line) source
  | .tail _ :: _ => malformed .missingTail source
  | .quote :: _ => malformed .nothingQuoted source

def atClose (stack : List Opening) (source : Source) : Progress :=
  match stack with
  | .list _ items :: stack => deliver stack (reverseListTo items .nil) source
  | .tail _ :: _ => malformed .missingTail source
  | _ => malformed .unmatchedClose source

def atDot (stack : List Opening) (source : Source) : Progress :=
  match stack with
  | .list _ [] :: _ => malformed .leadingDot source
  | .list _ items :: stack => .more (.tail items :: stack) source
  | _ => malformed .strayDot source

/-- A token lies ahead. -/
def atToken (stack : List Opening) (source : Source) : Progress :=
  let (cs, after) := source.token
  match Token.ofChars cs after.line with
  | .ok (.datum d) => deliver stack d after
  | .ok .dot => atDot stack after
  | .error fault => .failed fault after

end Progress

/-- Deals with the next parenthesis, quote mark or token. -/
def advance (limit : Nat) (stack : List Opening) (source : Source) : Progress :=
  let start := source.skipBlanks
  match start.next with
  | (none, after) => .atEnd stack after
  | (some c, after) =>
    if c = '(' then .opening limit (.list after.line []) stack after
    else if c = ')' then .atClose stack after
    else if c = '\'' then .opening limit .quote stack after
    else .atToken stack start

namespace Progress

theorem length_deliver_le (stack : List Opening) (d : Datum) (s : Source) :
    (deliver stack d s).source.unread.length ≤ s.unread.length := by
  fun_induction deliver stack d s with
  | case1 => exact Nat.le_refl _
  | case2 => exact Nat.le_refl _
  | case3 _ _ _ ih => exact ih
  | case4 items stack d s after hs ih =>
    have := Source.length_unread_nextSignificant_le s
    rw [hs] at this
    exact Nat.le_trans ih this
  | case5 items stack d s c after _ hs =>
    have := Source.length_unread_nextSignificant_le s
    rw [hs] at this
    exact this

theorem source_opening (limit : Nat) (o : Opening) (stack : List Opening) (s : Source) :
    (opening limit o stack s).source = s := by
  rw [opening]
  split <;> rfl

theorem length_atClose_le (stack : List Opening) (s : Source) :
    (atClose stack s).source.unread.length ≤ s.unread.length := by
  fun_cases atClose stack s
  case case1 => exact length_deliver_le ..
  all_goals exact Nat.le_refl _

theorem source_atDot (stack : List Opening) (s : Source) : (atDot stack s).source = s := by
  fun_cases atDot stack s <;> rfl

theorem length_atToken_le (stack : List Opening) (s : Source) :
    (atToken stack s).source.unread.length ≤ s.token.2.unread.length := by
  simp only [atToken]
  split
  · exact length_deliver_le ..
  · exact Nat.le_of_eq (by rw [source_atDot])
  · exact Nat.le_refl _

theorem source_atEnd (stack : List Opening) (s : Source) : (atEnd stack s).source = s := by
  fun_cases atEnd stack s <;> rfl

end Progress

/-- Where a character lies ahead, a step consumes one, also if it fails. -/
theorem length_advance_lt (limit : Nat) (stack : List Opening) {s after : Source} {c : Char}
    (hn : s.skipBlanks.next = (some c, after)) :
    (advance limit stack s).source.unread.length < s.unread.length := by
  have hle := s.length_unread_skipBlanks_le
  have hlt := Source.length_unread_of_next hn
  simp only [advance, hn]
  split
  · rw [Progress.source_opening]
    omega
  split
  · have := Progress.length_atClose_le stack after
    omega
  split
  · rw [Progress.source_opening]
    omega
  · obtain ⟨rest, hr⟩ := Source.exists_unread_eq_cons hn
    have := Source.head_unread_skipBlanks hr
    have := Source.length_unread_token_lt hr (by simp_all [isDelimiter])
    have := Progress.length_atToken_le stack s.skipBlanks
    omega

/-- A step ends the reading or consumes a character. -/
theorem advance_cases (limit : Nat) (stack : List Opening) (s : Source) :
    (∃ fault s', advance limit stack s = .failed fault s') ∨
      (advance limit stack s).source.unread.length < s.unread.length := by
  rcases hn : s.skipBlanks.next with ⟨_ | c, after⟩
  · left
    simp only [advance, hn]
    fun_cases Progress.atEnd stack _ <;> exact ⟨_, _, rfl⟩
  · exact .inr (length_advance_lt limit stack hn)

theorem length_unread_lt_of_advance_more {limit : Nat} {stack stack' : List Opening} {s s' : Source}
    (h : advance limit stack s = .more stack' s') : s'.unread.length < s.unread.length := by
  simpa [h, Progress.source] using advance_cases limit stack s

theorem length_unread_lt_of_advance_done {limit : Nat} {stack : List Opening} {d : Datum}
    {s s' : Source} (h : advance limit stack s = .done d s') :
    s'.unread.length < s.unread.length := by
  simpa [h, Progress.source] using advance_cases limit stack s

def resume (limit : Nat) (stack : List Opening) (source : Source) : Except Fault Datum × Source :=
  match _h : advance limit stack source with
  | .more stack' source' => resume limit stack' source'
  | .done d source' => (.ok d, source')
  | .failed fault source' => (.error fault, source')
termination_by source.unread.length
decreasing_by exact length_unread_lt_of_advance_more _h

/-- Reads one datum with at most `limit` constructs open at once. -/
def read (limit : Nat) (source : Source) : Except Fault Datum × Source :=
  resume limit [] source

theorem length_unread_lt_of_resume {limit : Nat} {stack : List Opening} {s s' : Source} {d : Datum}
    (h : resume limit stack s = (.ok d, s')) : s'.unread.length < s.unread.length := by
  fun_induction resume limit stack s with
  | case1 stack s stack' t ha ih =>
    exact Nat.lt_trans (ih h) (length_unread_lt_of_advance_more ha)
  | case2 stack s d' t ha =>
    obtain ⟨-, rfl⟩ := Prod.mk.inj h
    exact length_unread_lt_of_advance_done ha
  | case3 => simp at h

theorem length_unread_lt_of_read {limit : Nat} {s s' : Source} {d : Datum}
    (h : read limit s = (.ok d, s')) : s'.unread.length < s.unread.length :=
  length_unread_lt_of_resume h

end Keel.Datum
