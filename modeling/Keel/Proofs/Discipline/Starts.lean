import Keel.Proofs.Discipline.Session
import Keel.Proofs.Involvement

/-! # Evaluations that sessions start

Whatever a session is asked for, it reads forms and evaluates each of them in the
frame of the basis. A session that keeps a discipline starts such evaluations only
as the discipline admits, in the middle of a text or of the loop as well.
-/

namespace Keel

namespace Session

def evaluation (setup : Setup) (s : Session) (expr : Value) : Evaluation :=
  ⟨setup.evaluating, s.root, expr, s.machine⟩

/-- The evaluation is of one of the forms of the text, after those before it. -/
inductive TextStarts (setup : Setup) (e : Evaluation) : Source → Session → Prop
  | here {text rest : Source} {s s' : Session} {d : Datum} {expr : Value}
      (read : Datum.read setup.reading text = (.ok d, rest))
      (accepted : accept setup d rest.line s = .ok expr s')
      (starts : e = s'.evaluation setup expr) : TextStarts setup e text s
  | later {text rest : Source} {s s' : Session} {d : Datum} {v : Value}
      (read : Datum.read setup.reading text = (.ok d, rest))
      (done : (accept setup d rest.line >>= evaluateValue setup) s = .ok v s')
      (there : TextStarts setup e rest s') : TextStarts setup e text s

/-- The session starts the evaluation of a form when it does what it is asked for. -/
inductive Starts (setup : Setup) (e : Evaluation) : Session → Deed → Prop
  | form {s s' : Session} {source : Source} {d : Datum} {expr : Value}
      (read : Datum.read setup.reading s.machine.source = (.ok d, source))
      (accepted : accept setup d source.line { s with machine := { s.machine with source } } =
        .ok expr s')
      (starts : e = s'.evaluation setup expr) : Starts setup e s .form
  | text {s : Session} {code : String} (there : TextStarts setup e (.ofString code) s) :
      Starts setup e s (.text code)
  | loop {s s' : Session} {interactive : Bool} {prompt : String}
      (prompted : (if interactive then write prompt else pure ()) s = .ok () s')
      (there : Starts setup e s' .form) : Starts setup e s (.loop interactive prompt)
  | laterRound {s s' : Session} {interactive : Bool} {prompt : String} {how : Round}
      (done : Session.round setup interactive prompt s = .ok how s')
      (there : Starts setup e s' (.loop interactive prompt)) :
      Starts setup e s (.loop interactive prompt)

end Session

namespace Discipline

variable {D : Discipline} {T : Session.Terms} {setup : Setup} {s s' : Session} {e : Evaluation}
  {α : Type}

theorem KeepsTurn.of_eq_ok {t : Turn α} {post : α → Machine → Prop} {v : α}
    (ht : D.KeepsTurn s t post) (h : t s = .ok v s') : D.Reaches s s' ∧ post v s'.machine := by
  unfold KeepsTurn at ht
  rwa [h] at ht

namespace Lawful

variable (h : D.Lawful setup.style) (hosted : D.Hosted T)
include h hosted

theorem admits_of_accept {d : Datum} {line : Int} {expr : Value} (hs : D.Sound s) (hd : T.Given d)
    (haccept : Session.accept setup d line s = .ok expr s') :
    D.Admits (s'.evaluation setup expr) := by
  obtain ⟨hreach, hexpr⟩ := (h.turn_accept hosted hs setup hd line).of_eq_ok haccept
  exact ⟨hreach.sound.good, hreach.sound.scope, hexpr⟩

theorem admits_of_textStarts {text : Source} (hs : D.Sound s) (ht : T.Legible text)
    (hstarts : Session.TextStarts setup e text s) : D.Admits e := by
  induction hstarts with
  | here hread haccept he =>
    subst he
    exact h.admits_of_accept hosted hs (T.given_of_read ht hread) haccept
  | @later text rest s s' d v hread hdone _ ih =>
    have hd := T.given_of_read ht hread
    have hrest : T.Legible rest := by
      have hadvances := Datum.advancesTo_read setup.reading text
      rw [hread] at hadvances
      exact T.legible_of_advancesTo hadvances ht
    have hform : D.KeepsTurn s (Session.accept setup d rest.line >>= Session.evaluateValue setup)
        D.Val :=
      h.turn_bind (h.turn_accept hosted hs setup hd _) fun _ _ hs₁ hc =>
        h.turn_evaluateValue hosted hs₁.sound hc
    exact ih (hform.of_eq_ok hdone).1.sound hrest

/-- A session on the terms of the discipline starts evaluations that the discipline admits. -/
theorem admits_of_starts {deed : Session.Deed} (hs : D.Sound s) (hdeed : deed.OnTerms T)
    (hstarts : s.Starts setup e deed) : D.Admits e := by
  induction hstarts with
  | @form s s' source d expr hread haccept he =>
    subst he
    have hadvances := Datum.advancesTo_read setup.reading s.machine.source
    rw [hread] at hadvances
    have hmoved := h.turn_advance hosted hs hadvances
    have hd := T.given_of_read (hosted.legible hs.good) hread
    exact h.admits_of_accept hosted hmoved.after.sound hd haccept
  | text there => exact h.admits_of_textStarts hosted hs hdeed there
  | @loop s s' interactive prompt hprompted _ ih =>
    have hprompt : D.KeepsTurn s (if interactive then Session.write prompt else pure ())
        fun _ _ => True := by
      cases interactive with
      | true => exact h.turn_write hosted hs (hdeed rfl)
      | false => exact h.turn_pure hs trivial
    exact ih (hprompt.of_eq_ok hprompted).1.sound trivial
  | laterRound hdone _ ih =>
    exact ih ((h.turn_round hosted hs hdeed).of_eq_ok hdone).1.sound hdeed

end Lawful

end Discipline

end Keel
