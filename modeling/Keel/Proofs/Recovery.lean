import Keel.Proofs.Stream.Access
import Keel.Proofs.Stream.Loop

/-! # Recovering from malformed texts

A malformed text is refused with the number of the line that reading has reached,
and the refusal does nothing but advance the source. The loop goes on behind the
first newline that is still unread: nothing before it is read again, and nothing
behind it is lost.
-/

namespace Keel

namespace Source

/-- The one source stands behind the first newline that the other has not read, or at the end if
there is none. -/
inductive BehindLine (s s' : Source) : Prop where
  | newline {skipped : List Char} : '\n' ∉ skipped → s.unread = skipped ++ '\n' :: s'.unread →
      s'.line = s.line + 1 → BehindLine s s'
  | atEnd : '\n' ∉ s.unread → s'.unread = [] → s'.line = s.line → BehindLine s s'

theorem dropLine_cases (cs : List Char) (line : Int) :
    (∃ skipped, '\n' ∉ skipped ∧ cs = skipped ++ '\n' :: (dropLine cs line).1 ∧
      (dropLine cs line).2 = line + 1) ∨ ('\n' ∉ cs ∧ dropLine cs line = ([], line)) := by
  fun_induction dropLine cs line with
  | case1 line => simp
  | case2 cs line => exact .inl ⟨[], by simp⟩
  | case3 c cs line hc ih =>
    have hne : '\n' ≠ c := Ne.symm hc
    rcases ih with ⟨skipped, hskipped, hcs, hline⟩ | ⟨hcs, heq⟩
    · left
      refine ⟨c :: skipped, ?_, ?_, hline⟩
      · simp [hne, hskipped]
      · rw [List.cons_append, ← hcs]
    · right
      simp [hne, hcs, heq]

theorem behindLine_skipLine (s : Source) : s.BehindLine s.skipLine := by
  rcases dropLine_cases s.unread s.line with ⟨skipped, hskipped, hunread, hline⟩ | ⟨hunread, heq⟩
  · exact .newline hskipped hunread hline
  · refine .atEnd hunread ?_ ?_
    · rw [skipLine, heq, unread_mk_none]
    · rw [skipLine, heq]

end Source

/-! ## Where a text is refused -/

namespace Datum

variable {limit : Nat} {s left : Source} {line : Int} {cause : Malformation}

theorem line_of_read_malformed (h : read limit s = (.error (.malformed line cause), left)) :
    line = left.line := by
  rcases resume_eq_error h with ⟨hend, -⟩ | hdeep | hlong | ⟨cause', hmalformed⟩
  · exact nomatch hend
  · exact nomatch hdeep
  · exact nomatch hlong
  · exact (Fault.malformed.inj hmalformed).1

theorem line_of_restores {m : Machine} {text : List Char} {accesses : List Access}
    (h : read limit s = (.error (.malformed line cause), left))
    (hsource : m.source = Source.ofChars text) (hrestores : m.Restores text accesses)
    (hs : (m.afterAccesses accesses).source = s) :
    ∃ consumed, text = consumed ++ left.unread ∧ line = 1 + consumed.count '\n' := by
  obtain ⟨before, htext, hline⟩ := Machine.line_of_restores hsource hrestores
  rw [hs] at htext hline
  have hadvances := advancesTo_read limit s
  rw [h] at hadvances
  obtain ⟨consumed, hconsumed⟩ := hadvances.suffix
  refine ⟨before ++ consumed, ?_, ?_⟩
  · rw [List.append_assoc, hconsumed, htext]
  · have hlines := hadvances.lines
    rw [← hconsumed, List.count_append] at hlines
    rw [line_of_read_malformed h, List.count_append]
    push_cast at hlines ⊢
    omega

end Datum

namespace Session

variable {setup : Setup} {interactive : Bool} {prompt : String} {s s' : Session}

/-! ## The count of errors -/

theorem rounds_eq_rounds {fuel fuel' : Nat} (h : s.unread.length < fuel)
    (h' : s.unread.length < fuel') (errors : Nat) :
    rounds setup interactive prompt fuel errors s =
      rounds setup interactive prompt fuel' errors s := by
  obtain ⟨n, hloops⟩ := loops_rounds setup interactive prompt errors s h
  obtain ⟨n', hloops'⟩ := loops_rounds setup interactive prompt errors s h'
  exact (hloops.unique hloops').2

theorem rounds_add (fuel errors k : Nat) (s : Session) :
    rounds setup interactive prompt fuel (errors + k) s =
      (do return (← rounds setup interactive prompt fuel errors) + k) s := by
  induction fuel generalizing errors s with
  | zero => rfl
  | succ fuel ih =>
    unfold rounds
    rw [bind_assoc]
    cases hround : round setup interactive prompt s with
    | error fault s' => rw [bind_of_eq_error hround, bind_of_eq_error hround]
    | ok r s' =>
      rw [bind_of_eq_ok hround, bind_of_eq_ok hround]
      cases r with
      | finished => rfl
      | evaluated => exact ih errors s'
      | recovered =>
        show rounds setup interactive prompt fuel (errors + k + 1) s' = _
        rw [Nat.add_right_comm]
        exact ih (errors + 1) s'

theorem rounds_succ_of_recovered (h : round setup interactive prompt s = .ok .recovered s')
    (fuel errors : Nat) :
    rounds setup interactive prompt (fuel + 1) errors s =
      rounds setup interactive prompt fuel (errors + 1) s' := by
  rw [rounds, bind_of_eq_ok h]

theorem run_of_recovered (h : round setup interactive prompt s = .ok .recovered s') :
    run setup interactive prompt s =
      (do return (← run setup interactive prompt) + 1) s' := by
  have hlt := (consumes_of_round h nofun).length_lt
  calc run setup interactive prompt s
      = rounds setup interactive prompt s.unread.length 1 s' := rounds_succ_of_recovered h _ 0
    _ = rounds setup interactive prompt (s'.unread.length + 1) (0 + 1) s' :=
        rounds_eq_rounds hlt (Nat.lt_succ_self _) 1
    _ = _ := rounds_add _ 0 1 s'

/-! ## The round of a malformed text -/

/-- What the loop has done in a round that met the fault where the source had been read as far as
`left`: it told the fault, and it went on to the next line. -/
structure Recovers (setup : Setup) (interactive : Bool) (prompt : String) (fault : Fault)
    (left : Source) (s s' : Session) : Prop where
  store : s'.machine.store = s.machine.store
  root : s'.root = s.root
  /-- The prompt is all that was written. -/
  output : s'.machine.output = s.machine.output ++ if interactive then prompt else ""
  journal : s'.journal = .reported fault ::
    ((if setup.logging then [.logged (.recovered fault.kind)] else []) ++ s.journal)
  source : left.BehindLine s'.machine.source

variable {fault : Fault} {line : Int} {cause : Malformation} {left : Source}

theorem evaluateOne_of_read_error
    (h : Datum.read setup.reading s.machine.source = (.error fault, left)) :
    evaluateOne setup s = .error fault { s with machine.source := left } := by
  rw [evaluateOne_eq, h]

theorem round_of_read_error (interactive : Bool) (prompt : String)
    (h : Datum.read setup.reading s.machine.source = (.error fault, left)) :
    round setup interactive prompt s = recover setup interactive fault { s with machine :=
      ⟨s.machine.store, left, s.machine.output ++ if interactive then prompt else ""⟩ } := by
  cases interactive with
  | false =>
    rw [if_neg Bool.false_ne_true, String.append_empty]
    exact tryCatch_of_eq_error (bind_of_eq_error (evaluateOne_of_read_error h))
  | true =>
    let prompted : Session := { s with machine.output := s.machine.output ++ prompt }
    exact tryCatch_of_eq_error
      (bind_of_eq_error (evaluateOne_of_read_error (s := prompted) h))

theorem round_of_read_malformed (interactive : Bool) (prompt : String)
    (h : Datum.read setup.reading s.machine.source = (.error (.malformed line cause), left)) :
    ∃ s', round setup interactive prompt s = .ok .recovered s' ∧
      Recovers setup interactive prompt (.malformed line cause) left s s' := by
  rw [round_of_read_error interactive prompt h]
  refine ⟨_, (bind_of_eq_ok (report_eq setup _ _)).trans rfl, ?_⟩
  constructor
  · rfl
  · rfl
  · rfl
  · rfl
  · exact left.behindLine_skipLine

/-- At the end of the input the loop finishes, and nothing has changed but the output, where an
interactive session leaves its last prompt on a line of its own. -/
theorem round_of_unread_eq_nil (setup : Setup) (interactive : Bool) (prompt : String)
    (h : s.unread = []) : ∃ s', round setup interactive prompt s = .ok .finished s' ∧
      s'.journal = s.journal ∧ s'.machine.store = s.machine.store ∧
      s'.machine.output = s.machine.output ++ if interactive then prompt ++ "\n" else "" := by
  have hblank : Grammar.Blank s.machine.source.unread [] := by
    rw [show s.machine.source.unread = [] from h]
    exact .nil []
  obtain ⟨left, hread⟩ : ∃ left, Datum.read setup.reading s.machine.source =
      (.error .endOfInput, left) := Datum.resume_blank hblank
  rw [round_of_read_error interactive prompt hread]
  cases interactive
  · exact ⟨_, rfl, rfl, rfl, rfl⟩
  · exact ⟨_, rfl, rfl, rfl, String.append_assoc ..⟩

end Session

/-- A malformed text is refused with the line that the source has come to, which on a source made
from a text is one more than the number of newlines consumed. Neither store nor output has changed
then. In the loop, the refusal is told and counted once, and the next form is read from what follows
the first newline that was left unread. -/
theorem malformed_resumes_behindLine (setup : Setup) (s : Session) (line : Int)
    (cause : Malformation) (left : Source)
    (h : Datum.read setup.reading s.machine.source = (.error (.malformed line cause), left)) :
    line = left.line ∧
    (∃ text, (Fault.malformed line cause).message = "line " ++ toString left.line ++ ": " ++ text) ∧
    (∀ (m : Machine) (text : List Char) (accesses : List Access),
      m.source = Source.ofChars text → m.Restores text accesses →
      (m.afterAccesses accesses).source = s.machine.source →
      ∃ consumed, text = consumed ++ left.unread ∧ line = 1 + consumed.count '\n') ∧
    Session.evaluateOne setup s =
      .error (.malformed line cause) { s with machine.source := left } ∧
    ∀ interactive prompt, ∃ s', Session.round setup interactive prompt s = .ok .recovered s' ∧
      Session.Recovers setup interactive prompt (.malformed line cause) left s s' ∧
      (∀ fuel errors, Session.rounds setup interactive prompt (fuel + 1) errors s =
        Session.rounds setup interactive prompt fuel (errors + 1) s') ∧
      Session.run setup interactive prompt s =
        (do return (← Session.run setup interactive prompt) + 1) s' := by
  have hline := Datum.line_of_read_malformed h
  refine ⟨hline, ?_, fun m text accesses => Datum.line_of_restores h,
    Session.evaluateOne_of_read_error h, ?_⟩
  · exact ⟨cause.message, by rw [← hline]; rfl⟩
  · intro interactive prompt
    obtain ⟨s', hround, hrecovers⟩ := Session.round_of_read_malformed interactive prompt h
    exact ⟨s', hround, hrecovers, Session.rounds_succ_of_recovered hround,
      Session.run_of_recovered hround⟩

/-- A numeral is malformed inside a list, on the second line. The newline behind it has been put
back, so it is this one that the loop goes on behind. -/
theorem malformed_resumes_behindLine_putBack :
    let setup : Setup := ⟨.plain, 1000, false⟩
    let s : Session := ⟨⟨.empty, .ofString "(a\n 12x\n7", ""⟩, 0, []⟩
    let left : Source := ⟨some '\n', ['7'], 2⟩
    Datum.read setup.reading s.machine.source =
      (.error (.malformed 2 (.malformedInteger "12x")), left) ∧
    (∃ consumed, "(a\n 12x\n7".toList = consumed ++ left.unread ∧
      (2 : Int) = 1 + consumed.count '\n') ∧
    ∃ s', Session.round setup true "> " s = .ok .recovered s' ∧ s'.machine.output = "> " ∧
      s'.unread = ['7'] ∧ s'.machine.source.line = 3 ∧
      Session.run setup true "> " s = (do return (← Session.run setup true "> ") + 1) s' := by
  intro setup s left
  have hread : Datum.read setup.reading s.machine.source =
      (.error (.malformed 2 (.malformedInteger "12x")), left) := by
    cbv
  obtain ⟨-, -, hline, -, hround⟩ := malformed_resumes_behindLine setup s 2 _ left hread
  obtain ⟨s', hs', hrecovers, -, hrun⟩ := hround true "> "
  refine ⟨hread, hline s.machine _ [] rfl trivial rfl, s', hs', hrecovers.output, ?_⟩
  cases hrecovers.source with
  | @newline skipped hskipped hunread hline =>
    have hunread : ['\n', '7'] = skipped ++ '\n' :: s'.unread := hunread
    cases skipped with
    | nil => exact ⟨(List.cons.inj hunread).2.symm, hline, hrun⟩
    | cons c cs =>
      obtain rfl : '\n' = c := (List.cons.inj hunread).1
      exact absurd List.mem_cons_self hskipped
  | atEnd hnone => exact absurd (by decide : '\n' ∈ left.unread) hnone

end Keel
