import Mathlib
import Keel.Proofs.Reading
import Keel.Proofs.Stream.Basic
import Keel.Proofs.Stream.Evaluation

/-! # The read loop exhausts the source

A round of the loop finds the end of the input, or it consumes a character: the
reader does so before it delivers a datum and before it refuses a text, and
whatever is done afterwards only advances the source. So the loop comes to an end
although nothing limits its rounds, and it returns only when nothing is left to
be read.
-/

namespace Keel

/-- A fault that reading and evaluating may end in where a form lies ahead. -/
def Fault.OfForm (fault : Fault) : Prop :=
  (∃ line cause, fault = .malformed line cause) ∨ fault.OfEvaluation

theorem Datum.Refused.ofForm {fault : Fault} {s : Source} (h : Datum.Refused fault s) :
    fault.OfForm := by
  rcases h with hdeep | hlong | ⟨cause, hmalformed⟩
  · exact .inr (.inr (.inr (.inl hdeep)))
  · exact .inr (.inr (.inr (.inr hlong)))
  · exact .inl ⟨s.line, cause, hmalformed⟩

/-- Reading that fails has come to the end, or it has consumed a character. -/
theorem Datum.read_eq_error {limit : Nat} {s s' : Source} {fault : Fault}
    (h : read limit s = (.error fault, s')) :
    (fault = .endOfInput ∧ s'.unread = []) ∨
      (Refused fault s' ∧ s'.unread.length < s.unread.length) := by
  obtain ⟨r, line, hr, hblank, -⟩ := s.exists_skipBlanks
  cases r with
  | nil =>
    left
    rw [read, resume_eq, advance_end hr] at h
    obtain ⟨hfault, rfl⟩ := Prod.mk.inj h
    exact ⟨(Except.error.inj hfault).symm, rfl⟩
  | cons c cs =>
    right
    have hsome : s.skipBlanks.unread ≠ [] := by
      rw [hr]
      exact List.cons_ne_nil c cs
    have hlt := length_unread_read_lt limit hsome
    rw [h] at hlt
    refine ⟨?_, hlt⟩
    rcases resume_eq_error h with ⟨rfl, -, hend⟩ | hrefused
    · have hnone : Grammar.Significant [] := by simp [Grammar.Significant]
      obtain ⟨line', hs⟩ := Source.skipBlanks_of_blank hend hnone
      exact absurd (by rw [hs]; rfl) hsome
    · exact hrefused

/-! ## The faults of turns -/

namespace Turn

variable {α β : Type} {P : Fault → Prop}

def FailsOnly (t : Turn α) (P : Fault → Prop) : Prop :=
  ∀ s fault s', t s = .error fault s' → P fault

theorem exists_eq_ok {t : Turn α} {s : Session} {v : α} (h : EStateM.run' t s = some v) :
    ∃ s', t s = .ok v s' := by
  unfold EStateM.run' EStateM.run at h
  cases hts : t s with
  | ok w s' =>
    rw [hts] at h
    exact ⟨s', by rw [Option.some.inj h]⟩
  | error fault s' =>
    rw [hts] at h
    exact nomatch h

theorem failsOnly_pure (v : α) : FailsOnly (pure v) P := by
  intro s fault s' h
  exact nomatch h

theorem FailsOnly.bind {t : Turn α} {k : α → Turn β} (ht : t.FailsOnly P)
    (hk : ∀ v, (k v).FailsOnly P) : FailsOnly (t >>= k) P := by
  intro s fault s' h
  cases hts : t s with
  | ok v s₁ =>
    rw [bind_of_eq_ok hts] at h
    exact hk v s₁ fault s' h
  | error fault' s₁ =>
    rw [bind_of_eq_error hts] at h
    obtain ⟨rfl, -⟩ := EStateM.Result.error.inj h
    exact ht s fault' s₁ hts

open Discipline

theorem failsOnly_perform {a : Action α} {post : α → Machine → Prop}
    (ha : ∀ m, streaming.Keeps m a post) : FailsOnly (Session.perform a) Fault.OfEvaluation := by
  intro s fault s' h
  cases ham : a s.machine with
  | ok v m =>
    rw [Session.perform_of_eq_ok ham] at h
    exact nomatch h
  | error fault' m =>
    rw [Session.perform_of_eq_error ham] at h
    obtain ⟨rfl, -⟩ := EStateM.Result.error.inj h
    exact ((ha s.machine).of_eq_error ham).2

theorem failsOnly_record (setup : Setup) {r : Store → Except Fault Record}
    (hr : ∀ s, Bounded (r s)) : FailsOnly (Session.record setup r) Fault.OfEvaluation := by
  have hmade : FailsOnly
      (Session.perform (Action.inspecting fun store => unlessTooLong (r store)))
      Fault.OfEvaluation := fun s =>
    failsOnly_perform (fun m =>
      (streaming.coherent.keeps_bounded trivial (hr m.store).unlessTooLong).imp
        fun _ _ _ _ => trivial) s
  unfold Session.record
  split
  · refine FailsOnly.bind hmade fun told => ?_
    cases told with
    | none => exact failsOnly_pure ()
    | some told =>
      intro s fault s' h
      exact nomatch h
  · exact failsOnly_pure ()

end Turn

namespace Session

open Discipline

def unread (s : Session) : List Char :=
  s.machine.source.unread

/-- From one session to the other a character has been consumed at least. -/
structure Consumes (s s' : Session) : Prop where
  suffix : s'.unread <:+ s.unread
  length_lt : s'.unread.length < s.unread.length

theorem Consumes.of_suffix {s s' s'' : Session} (h : s.Consumes s') (h' : s''.unread <:+ s'.unread) :
    s.Consumes s'' :=
  ⟨h'.trans h.suffix, Nat.lt_of_le_of_lt h'.length_le h.length_lt⟩

variable {setup : Setup} {interactive : Bool} {prompt : String} {s s' : Session} {fault : Fault}

theorem suffix_after {α : Type} {t : Turn α} {post : α → Machine → Prop}
    (ht : streaming.KeepsTurn s t post) : (t.after s).unread <:+ s.unread :=
  ht.after.step.suffix

theorem sound_streaming (s : Session) : streaming.Sound s :=
  ⟨trivial, trivial⟩

/-! ## One form -/

theorem failsOnly_accept (setup : Setup) (d : Datum) (line : Int) :
    (accept setup d line).FailsOnly Fault.OfEvaluation := by
  refine Turn.FailsOnly.bind (Turn.failsOnly_perform fun _ => streaming.hosted.load trivial trivial)
    fun expr => ?_
  have hlog := Turn.failsOnly_record setup fun store =>
    Bounded.logRead store setup.inspecting expr line
  exact hlog.bind fun _ => Turn.failsOnly_pure expr

theorem failsOnly_evaluateValue (setup : Setup) (expr : Value) :
    (evaluateValue setup expr).FailsOnly Fault.OfEvaluation := by
  intro s fault s' hs
  refine Turn.FailsOnly.bind (t := perform (evaluate setup.style setup.evaluating s.root expr))
    (Turn.failsOnly_perform fun m =>
      streaming.keeps_evaluate setup.style setup.evaluating m s.root expr)
    (fun v => ?_) s fault s' hs
  have hlog := Turn.failsOnly_record setup fun store =>
    Bounded.logEvaluated store setup.inspecting expr v
  exact hlog.bind fun _ => Turn.failsOnly_pure v

theorem suffix_accept_evaluateValue (setup : Setup) (d : Datum) (line : Int) (s : Session) :
    ((accept setup d line >>= evaluateValue setup).after s).unread <:+ s.unread := by
  have h := streaming.lawful setup.style
  have haccept := h.turn_accept (d := d) streaming.hosted s.sound_streaming setup trivial line
  have hboth : streaming.KeepsTurn s (accept setup d line >>= evaluateValue setup) streaming.Val :=
    h.turn_bind haccept fun _ s₁ hs₁ hexpr =>
      h.turn_evaluateValue streaming.hosted hs₁.sound hexpr
  exact suffix_after hboth

/-- A turn finds the end of the input, or it consumes a character before it gives a value or fails
as a form may fail. -/
inductive Advances {α : Type} (s : Session) : EStateM.Result Fault Session α → Prop where
  | atEnd {s' : Session} : s'.unread = [] → Advances s (.error .endOfInput s')
  | value {v : α} {s' : Session} : s.Consumes s' → Advances s (.ok v s')
  | fault {fault : Fault} {s' : Session} : s.Consumes s' → fault.OfForm →
      Advances s (.error fault s')

theorem Consumes.advances {α : Type} {t : Turn α} (h : s.Consumes s')
    (hsuffix : (t.after s').unread <:+ s'.unread) (ht : t.FailsOnly Fault.OfEvaluation) :
    Advances s (t s') := by
  unfold Turn.after at hsuffix
  cases hresult : t s' with
  | ok v s'' =>
    rw [hresult] at hsuffix
    exact .value (h.of_suffix hsuffix)
  | error fault s'' =>
    rw [hresult] at hsuffix
    exact .fault (h.of_suffix hsuffix) (.inr (ht s' fault s'' hresult))

theorem Advances.bind {α β : Type} {t : Turn α} {k : α → Turn β} (ht : Advances s (t s))
    (hsuffix : ∀ v s', ((k v).after s').unread <:+ s'.unread)
    (hk : ∀ v, (k v).FailsOnly Fault.OfEvaluation) : Advances s ((t >>= k) s) := by
  cases hts : t s with
  | ok v s' =>
    rw [hts] at ht
    rw [bind_of_eq_ok hts]
    cases ht with
    | value hconsumes => exact hconsumes.advances (hsuffix v s') (hk v)
  | error fault s' =>
    rw [hts] at ht
    rw [bind_of_eq_error hts]
    cases ht with
    | atEnd hend => exact .atEnd hend
    | fault hconsumes hfault => exact .fault hconsumes hfault

theorem advances_evaluateOne (setup : Setup) (s : Session) :
    Advances s (evaluateOne setup s) := by
  have hsuffix := (Datum.advancesTo_read setup.reading s.machine.source).suffix
  rw [evaluateOne_eq]
  rcases hread : Datum.read setup.reading s.machine.source with ⟨fault | d, source⟩
  · rw [hread] at hsuffix
    rcases Datum.read_eq_error hread with ⟨rfl, hend⟩ | ⟨hrefused, hlt⟩
    · exact .atEnd hend
    · exact .fault ⟨hsuffix, hlt⟩ hrefused.ofForm
  · rw [hread] at hsuffix
    have hconsumes : s.Consumes { s with machine := { s.machine with source } } :=
      ⟨hsuffix, Datum.length_unread_lt_of_read hread⟩
    exact hconsumes.advances (suffix_accept_evaluateValue setup d source.line _)
      ((failsOnly_accept setup d source.line).bind (failsOnly_evaluateValue setup))

theorem failsOnly_echo (setup : Setup) (interactive : Bool) (v : Value) :
    (echo setup interactive v).FailsOnly Fault.OfEvaluation := by
  cases interactive with
  | false => exact Turn.failsOnly_pure ()
  | true =>
    have hshow : ∀ m, streaming.Keeps m (Action.inspecting fun store =>
        setup.style.write store.closureName setup.writing v) fun _ _ => True := fun m =>
      (streaming.coherent.keeps_bounded trivial (setup.style.bounded _ setup.writing v)).imp
        fun _ _ _ _ => trivial
    have hwrite : ∀ text m, streaming.Keeps m (Action.write text) fun _ _ => True := fun text m =>
      (streaming.hosted.write text trivial trivial).imp_right fun _ => ⟨trivial, trivial⟩
    exact (Turn.failsOnly_perform hshow).bind fun text => Turn.failsOnly_perform (hwrite _)

def echoOne (setup : Setup) (interactive : Bool) : Turn Unit :=
  evaluateOne setup >>= echo setup interactive

theorem advances_echoOne (setup : Setup) (interactive : Bool) (s : Session) :
    Advances s (echoOne setup interactive s) := by
  have h := streaming.lawful setup.style
  refine (advances_evaluateOne setup s).bind (fun v s' => ?_) (failsOnly_echo setup interactive)
  exact suffix_after (h.turn_echo streaming.hosted s'.sound_streaming (v := v) trivial)

theorem turn_eq (setup : Setup) (interactive : Bool) (s : Session) :
    turn setup interactive s = match echoOne setup interactive s with
      | .ok _ s' => .ok .evaluated s'
      | .error fault s' => .error fault s' := by
  unfold turn echoOne
  cases hone : evaluateOne setup s with
  | error fault s' => rw [bind_of_eq_error hone, bind_of_eq_error hone]
  | ok v s' =>
    rw [bind_of_eq_ok hone, bind_of_eq_ok hone]
    cases hecho : echo setup interactive v s' with
    | error fault s'' => rw [bind_of_eq_error hecho]
    | ok u s'' => rw [bind_of_eq_ok hecho]; rfl

/-! ## One round -/

/-- A report only enters the fault in the journal, and before that in the log if there is one. -/
theorem report_eq (setup : Setup) (fault : Fault) (s : Session) :
    report setup fault s = .ok () { s with journal := .reported fault ::
      ((if setup.logging then [.logged (.recovered fault.kind)] else []) ++ s.journal) } := by
  rcases setup with ⟨style, limit, logging⟩
  cases logging <;> rfl

theorem recover_endOfInput (setup : Setup) (interactive : Bool) (s : Session) :
    ∃ s', recover setup interactive .endOfInput s = .ok .finished s' ∧ s'.unread = s.unread := by
  cases interactive
  · exact ⟨_, rfl, rfl⟩
  · exact ⟨_, rfl, rfl⟩

/-- The loop recovers from a failed form, unless the form met an integer without a numeral. -/
theorem recover_ofForm (h : fault.OfForm) (setup : Setup) (interactive : Bool) (s : Session) :
    recover setup interactive fault s = .error .tooLong s ∨
      ∃ s', recover setup interactive fault s = .ok .recovered s' ∧ s'.unread <:+ s.unread := by
  have hreported : ∀ fault, (∃ cause, fault = .misuse cause) ∨ (∃ cause, fault = .unbound cause) ∨
      fault = .tooDeep →
      ∃ s', recover setup interactive fault s = .ok .recovered s' ∧ s'.unread <:+ s.unread := by
    intro fault hfault
    have hrecover : recover setup interactive fault = (do report setup fault; return .recovered) := by
      rcases hfault with ⟨cause, rfl⟩ | ⟨cause, rfl⟩ | rfl <;> rfl
    rw [hrecover]
    exact ⟨_, (bind_of_eq_ok (report_eq setup fault s)).trans rfl, List.suffix_refl _⟩
  rcases h with ⟨line, cause, rfl⟩ | hmisuse | hunbound | rfl | rfl
  · right
    have hreport := report_eq setup (.malformed line cause) s
    exact ⟨_, (bind_of_eq_ok hreport).trans rfl, s.machine.source.advancesTo_skipLine.suffix⟩
  · exact .inr (hreported fault (.inl hmisuse))
  · exact .inr (hreported fault (.inr (.inl hunbound)))
  · exact .inr (hreported .tooDeep (.inr (.inr rfl)))
  · exact .inl rfl

inductive Rounded (s : Session) : EStateM.Result Fault Session Round → Prop where
  | finished {s' : Session} : s'.unread = [] → Rounded s (.ok .finished s')
  | evaluated {s' : Session} : s.Consumes s' → Rounded s (.ok .evaluated s')
  | recovered {s' : Session} : s.Consumes s' → Rounded s (.ok .recovered s')
  | escaped {s' : Session} : s.Consumes s' → Rounded s (.error .tooLong s')

theorem rounded_tryCatch (setup : Setup) (interactive : Bool) (s : Session) :
    Rounded s (tryCatch (turn setup interactive) (recover setup interactive) s) := by
  have hone := advances_echoOne setup interactive s
  have hturn := turn_eq setup interactive s
  cases hresult : echoOne setup interactive s with
  | ok v s' =>
    rw [hresult] at hone hturn
    rw [tryCatch_of_eq_ok hturn]
    cases hone with
    | value hconsumes => exact .evaluated hconsumes
  | error fault s' =>
    rw [hresult] at hone hturn
    rw [tryCatch_of_eq_error hturn]
    cases hone with
    | atEnd hend =>
      obtain ⟨s'', hrecover, hunread⟩ := recover_endOfInput setup interactive s'
      rw [hrecover]
      exact .finished (hunread.trans hend)
    | fault hconsumes hfault =>
      rcases recover_ofForm hfault setup interactive s' with hescaped | ⟨s'', hrecover, hsuffix⟩
      · rw [hescaped]
        exact .escaped hconsumes
      · rw [hrecover]
        exact .recovered (hconsumes.of_suffix hsuffix)

theorem Rounded.of_unread_eq {r : EStateM.Result Fault Session Round} (h : Rounded s' r)
    (hunread : s'.unread = s.unread) : Rounded s r := by
  have hconsumes : ∀ {s''}, s'.Consumes s'' → s.Consumes s'' := fun hc =>
    ⟨hunread ▸ hc.suffix, hunread ▸ hc.length_lt⟩
  cases h with
  | finished hend => exact .finished hend
  | evaluated hc => exact .evaluated (hconsumes hc)
  | recovered hc => exact .recovered (hconsumes hc)
  | escaped hc => exact .escaped (hconsumes hc)

theorem rounded_round (setup : Setup) (interactive : Bool) (prompt : String) (s : Session) :
    Rounded s (round setup interactive prompt s) := by
  cases interactive with
  | false => exact rounded_tryCatch setup false s
  | true =>
    let prompted : Session := { s with machine.output := s.machine.output ++ prompt }
    exact (rounded_tryCatch setup true prompted).of_unread_eq rfl

/-! ## The whole loop -/

/-- The loop without a bound on its rounds: from `s`, after the given number of errors, it ends in
the result after so many rounds. -/
inductive Loops (setup : Setup) (interactive : Bool) (prompt : String) :
    (errors : Nat) → Session → (rounds : Nat) → EStateM.Result Fault Session Nat → Prop where
  | finished {errors : Nat} {s s' : Session} : round setup interactive prompt s = .ok .finished s' →
      Loops setup interactive prompt errors s 1 (.ok errors s')
  | escaped {errors : Nat} {s s' : Session} {fault : Fault} :
      round setup interactive prompt s = .error fault s' →
      Loops setup interactive prompt errors s 1 (.error fault s')
  | evaluated {errors n : Nat} {s s' : Session} {result : EStateM.Result Fault Session Nat} :
      round setup interactive prompt s = .ok .evaluated s' →
      Loops setup interactive prompt errors s' n result →
      Loops setup interactive prompt errors s (n + 1) result
  | recovered {errors n : Nat} {s s' : Session} {result : EStateM.Result Fault Session Nat} :
      round setup interactive prompt s = .ok .recovered s' →
      Loops setup interactive prompt (errors + 1) s' n result →
      Loops setup interactive prompt errors s (n + 1) result

theorem consumes_of_round {r : Round} (h : round setup interactive prompt s = .ok r s')
    (hr : r ≠ .finished) : s.Consumes s' := by
  have hround := rounded_round setup interactive prompt s
  rw [h] at hround
  cases hround with
  | finished => exact absurd rfl hr
  | evaluated hconsumes => exact hconsumes
  | recovered hconsumes => exact hconsumes

theorem unread_of_round (h : round setup interactive prompt s = .ok .finished s') :
    s'.unread = [] := by
  have hround := rounded_round setup interactive prompt s
  rw [h] at hround
  cases hround with
  | finished hend => exact hend

theorem fault_of_round (h : round setup interactive prompt s = .error fault s') :
    fault = .tooLong := by
  have hround := rounded_round setup interactive prompt s
  rw [h] at hround
  cases hround with
  | escaped => rfl

namespace Loops

variable {errors n : Nat} {result : EStateM.Result Fault Session Nat}

theorem unique {n' : Nat} {result' : EStateM.Result Fault Session Nat}
    (h : Loops setup interactive prompt errors s n result)
    (h' : Loops setup interactive prompt errors s n' result') : n = n' ∧ result = result' := by
  induction h generalizing n' with
  | finished hround =>
    cases h' with
    | finished hround' =>
      obtain ⟨-, rfl⟩ := EStateM.Result.ok.inj (hround.symm.trans hround')
      exact ⟨rfl, rfl⟩
    | escaped hround' | evaluated hround' _ | recovered hround' _ =>
      exact nomatch hround.symm.trans hround'
  | escaped hround =>
    cases h' with
    | escaped hround' =>
      obtain ⟨rfl, rfl⟩ := EStateM.Result.error.inj (hround.symm.trans hround')
      exact ⟨rfl, rfl⟩
    | finished hround' | evaluated hround' _ | recovered hround' _ =>
      exact nomatch hround.symm.trans hround'
  | evaluated hround _ ih =>
    cases h' with
    | evaluated hround' h' =>
      obtain ⟨-, rfl⟩ := EStateM.Result.ok.inj (hround.symm.trans hround')
      exact (ih h').imp_left fun hn => by rw [hn]
    | finished hround' | escaped hround' | recovered hround' _ =>
      exact nomatch hround.symm.trans hround'
  | recovered hround _ ih =>
    cases h' with
    | recovered hround' h' =>
      obtain ⟨-, rfl⟩ := EStateM.Result.ok.inj (hround.symm.trans hround')
      exact (ih h').imp_left fun hn => by rw [hn]
    | finished hround' | escaped hround' | evaluated hround' _ =>
      exact nomatch hround.symm.trans hround'

theorem rounds_le (h : Loops setup interactive prompt errors s n result) :
    n ≤ s.unread.length + 1 := by
  induction h with
  | finished => omega
  | escaped => omega
  | evaluated hround _ ih =>
    have hconsumes := consumes_of_round hround nofun
    have := hconsumes.length_lt
    omega
  | recovered hround _ ih =>
    have hconsumes := consumes_of_round hround nofun
    have := hconsumes.length_lt
    omega

/-- When the loop returns, everything has been read, and every error has cost a character. -/
theorem returned (h : Loops setup interactive prompt errors s n result) :
    ∀ {total s'}, result = .ok total s' →
      s'.unread = [] ∧ total ≤ errors + s.unread.length := by
  induction h with
  | finished hround =>
    rintro total s' ⟨⟩
    exact ⟨unread_of_round hround, Nat.le_add_right _ _⟩
  | escaped hround => exact nofun
  | evaluated hround _ ih =>
    intro total s' hresult
    have hlt := (consumes_of_round hround nofun).length_lt
    obtain ⟨hend, hle⟩ := ih hresult
    exact ⟨hend, by omega⟩
  | recovered hround _ ih =>
    intro total s' hresult
    have hlt := (consumes_of_round hround nofun).length_lt
    obtain ⟨hend, hle⟩ := ih hresult
    exact ⟨hend, by omega⟩

theorem escapes (h : Loops setup interactive prompt errors s n result) :
    ∀ {fault s'}, result = .error fault s' → fault = .tooLong := by
  induction h with
  | finished hround => exact nofun
  | escaped hround =>
    rintro fault s' ⟨⟩
    exact fault_of_round hround
  | evaluated _ _ ih => exact ih
  | recovered _ _ ih => exact ih

end Loops

theorem loops_rounds (setup : Setup) (interactive : Bool) (prompt : String) {fuel : Nat}
    (errors : Nat) (s : Session) (hfuel : s.unread.length < fuel) :
    ∃ n, Loops setup interactive prompt errors s n
      (rounds setup interactive prompt fuel errors s) := by
  induction fuel generalizing errors s with
  | zero => omega
  | succ fuel ih =>
    unfold rounds
    cases hround : round setup interactive prompt s with
    | error fault s' =>
      rw [bind_of_eq_error hround]
      exact ⟨1, .escaped hround⟩
    | ok r s' =>
      rw [bind_of_eq_ok hround]
      cases r with
      | finished => exact ⟨1, .finished hround⟩
      | evaluated =>
        have hconsumes := consumes_of_round hround nofun
        obtain ⟨n, hn⟩ := ih errors s' (by have := hconsumes.length_lt; omega)
        exact ⟨n + 1, .evaluated hround hn⟩
      | recovered =>
        have hconsumes := consumes_of_round hround nofun
        obtain ⟨n, hn⟩ := ih (errors + 1) s' (by have := hconsumes.length_lt; omega)
        exact ⟨n + 1, .recovered hround hn⟩

theorem loops_run (setup : Setup) (interactive : Bool) (prompt : String) (s : Session) :
    ∃ n, Loops setup interactive prompt 0 s n (run setup interactive prompt s) :=
  loops_rounds setup interactive prompt 0 s (Nat.lt_succ_self s.unread.length)

end Session

/-- The loop comes to an end by itself and in one way, with at most one more round than there are
unread characters, since every round but the last consumes one. It returns only when nothing is left
to be read, having counted no more errors than there were characters, and only an integer without a
numeral escapes it. For reading never finds the slot taken, also where tokens are read character by
character, and evaluating never announces the end of the input or a malformed text. -/
theorem run_exhausts_source :
    (∀ (setup : Setup) (interactive : Bool) (prompt : String) (s : Session),
      (∃ n ≤ s.unread.length + 1, ∀ n' result,
        Session.Loops setup interactive prompt 0 s n' result ↔
          n' = n ∧ result = Session.run setup interactive prompt s) ∧
      (∀ r s', Session.round setup interactive prompt s = .ok r s' → r ≠ .finished →
        s.Consumes s') ∧
      (∀ errors s', Session.run setup interactive prompt s = .ok errors s' →
        s'.unread = [] ∧ errors ≤ s.unread.length) ∧
      ∀ fault s', Session.run setup interactive prompt s = .error fault s' → fault = .tooLong) ∧
    (∀ limit source fault source', Datum.read limit source = (.error fault, source') →
      ∀ held refused, fault ≠ .slotTaken held refused) ∧
    (∀ source : Source, source.takeToken = .ok source.token) ∧
    ∀ style limit m f expr fault m', evaluate style limit f expr m = .error fault m' →
      fault ≠ .endOfInput ∧ ∀ line cause, fault ≠ .malformed line cause := by
  refine ⟨fun setup interactive prompt s => ?_, fun _ _ _ _ h => Datum.ne_slotTaken_of_read h,
    Source.takeToken_eq, ?_⟩
  · obtain ⟨n, hn⟩ := Session.loops_run setup interactive prompt s
    refine ⟨⟨n, hn.rounds_le, fun n' result => ⟨fun h => h.unique hn, ?_⟩⟩,
      fun r s' => Session.consumes_of_round, fun errors s' hrun => ?_,
      fun fault s' hrun => hn.escapes hrun⟩
    · rintro ⟨rfl, rfl⟩
      exact hn
    · have hreturned := hn.returned hrun
      rwa [Nat.zero_add] at hreturned
  · intro style limit m f expr fault m' h
    have hfault := ((Discipline.streaming.keeps_evaluate style limit m f expr).of_eq_error h).2
    exact ⟨hfault.ne_endOfInput, hfault.ne_malformed⟩

/-- A parenthesis too many, then a list that is not closed. -/
theorem run_exhausts_source_two_errors :
    let setup : Setup := ⟨.plain, 1000, false⟩
    let s : Session := ⟨⟨(Store.empty.newFrame none).2, .ofString ")\n(a", ""⟩, 0, []⟩
    (∃ s', Session.round setup true "> " s = .ok .recovered s' ∧ s.Consumes s') ∧
      ∃ s', Session.run setup true "> " s = .ok 2 s' ∧ s'.unread = [] ∧ 2 ≤ s.unread.length := by
  intro setup s
  obtain ⟨-, hround, hrun, -⟩ := run_exhausts_source.1 setup true "> " s
  obtain ⟨s₁, hs₁⟩ := Turn.exists_eq_ok (t := Session.round setup true "> ") (s := s)
    (v := .recovered) (by cbv)
  obtain ⟨s₂, hs₂⟩ := Turn.exists_eq_ok (t := Session.run setup true "> ") (s := s)
    (v := 2) (by cbv)
  exact ⟨⟨s₁, hs₁, hround _ s₁ hs₁ (by decide)⟩, s₂, hs₂, hrun 2 s₂ hs₂⟩

end Keel
