import Keel.Session.Loop

/-! # Sessions on a terminal

On a terminal the input arrives line by line, and no line arrives before it is asked
for. So a round of the loop is tried on what has arrived, with a newline behind it.
If the newline is still unread afterwards, then what really follows could not have
made a difference. Otherwise the round has to wait for another line.
-/

namespace Keel

namespace Source

def followedBy (cs : List Char) (s : Source) : Source :=
  { s with rest := s.rest ++ cs }

def dropLast (s : Source) : Source :=
  ⟨none, s.unread.dropLast, s.line⟩

@[simp] theorem unread_followedBy (cs : List Char) (s : Source) :
    (s.followedBy cs).unread = s.unread ++ cs := by
  rw [unread, unread, followedBy, List.append_assoc]

end Source

namespace Session

def hear (cs : List Char) (s : Session) : Session :=
  { s with machine.source := s.machine.source.followedBy cs }

/-- Takes back the last character that has arrived, unless it has been read. -/
def retract (s : Session) : Option Session :=
  if s.machine.source.unread = [] then none
  else some { s with machine.source := s.machine.source.dropLast }

/-- A round of an interactive session that has prompted for it, if what has arrived suffices. -/
def attempt (setup : Setup) (s : Session) : Option (EStateM.Result Fault Session Round) :=
  match round setup true "" (s.hear ['\n']) with
  | .ok r t => t.retract.map (.ok r)
  | .error fault t => t.retract.map (.error fault)

/-- The same, where nothing more may arrive. -/
def nextRound (setup : Setup) (ended : Bool) (s : Session) :
    Option (EStateM.Result Fault Session Round) :=
  if ended then some (round setup true "" s) else attempt setup s

end Session

end Keel
