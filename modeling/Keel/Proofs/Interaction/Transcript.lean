import Keel.Proofs.Interaction.Output
import Keel.Proofs.Stream.Loop

/-! # Interactive sessions

An interactive session prompts for each form and echoes its value, and it ends its
output with a newline. Otherwise it does what a session in batch mode does: in each
round they read the same form, write the same and tell the same.
-/

namespace Keel

/-- What happens in a round of the loop, apart from prompts and echoes. -/
structure Exchange where
  /-- The form that was read, or why there is none. -/
  read : Except Fault Datum
  /-- What was written meanwhile. -/
  written : String
  /-- The value as it is shown, or why there is none. -/
  answer : Except Fault String

namespace Exchange

/-- What an interactive session writes after a round: the value on a line of its own if there is
one, and a newline at the end of the input. -/
def echo (e : Exchange) : String :=
  match e.answer with
  | .ok shown => shown ++ "\n"
  | .error .endOfInput => "\n"
  | .error _ => ""

def text (prompt : String) (e : Exchange) : String :=
  prompt ++ e.written ++ e.echo

theorem echo_of_ne_endOfInput {e : Exchange} {fault : Fault} (h : e.answer = .error fault)
    (hfault : fault ≠ .endOfInput) : e.echo = "" := by
  rw [echo, h]
  cases fault with
  | endOfInput => exact absurd rfl hfault
  | _ => rfl

end Exchange

namespace Session

def silent (s : Session) : Session :=
  { s with machine := { s.machine with output := "" } }

def exchange (setup : Setup) (s : Session) : Exchange where
  read := (Datum.read setup.reading s.machine.source).1
  written := ((evaluateOne setup).after s.silent).machine.output
  answer :=
    match evaluateOne setup s.silent with
    | .ok v t => setup.style.write t.machine.store.closureName setup.writing v
    | .error fault _ => .error fault

/-- The loop goes through these rounds until it ends. -/
inductive Conducts (setup : Setup) (interactive : Bool) (prompt : String) :
    Session → List Exchange → Prop
  | last {s : Session}
      (ends : ∀ r t, round setup interactive prompt s = .ok r t → r = .finished) :
      Conducts setup interactive prompt s [s.exchange setup]
  | more {s t : Session} {r : Round} {es : List Exchange}
      (goes_on : round setup interactive prompt s = .ok r t) (unfinished : r ≠ .finished)
      (rest : Conducts setup interactive prompt t es) :
      Conducts setup interactive prompt s (s.exchange setup :: es)

def adding (text : String) (s : Session) : Session :=
  { s with machine := { s.machine with output := s.machine.output ++ text } }

/-- The interactive loop comes to echo the value. -/
inductive Echoes (setup : Setup) (prompt : String) (v : Value) (t : Session) : Session → Prop
  | here {s : Session} (evaluated : evaluateOne setup (s.adding prompt) = .ok v t) :
      Echoes setup prompt v t s
  | later {s s' : Session} {r : Round} (goes_on : round setup true prompt s = .ok r s')
      (unfinished : r ≠ .finished) (there : Echoes setup prompt v t s') :
      Echoes setup prompt v t s

/-- Every value that the interactive loop comes to echo can be shown. -/
def CanEcho (setup : Setup) (prompt : String) (s : Session) : Prop :=
  ∀ v t, Echoes setup prompt v t s →
    ∃ shown, setup.style.write t.machine.store.closureName setup.writing v = .ok shown

/-- The sessions are the same but for their output, and they have written the two texts. -/
structure Wrote (a b : String) (s s' : Session) : Prop where
  silent : s'.silent = s.silent
  first : s.machine.output = a
  second : s'.machine.output = b

/-- The end of the input is met in the last round, if the loop returns, and in no other round. -/
def EndsOnce (es : List Exchange) (returns : Prop) : Prop :=
  ∃ before final, es = before ++ [final] ∧ (∀ e ∈ before, e.answer ≠ .error .endOfInput) ∧
    (final.answer = .error .endOfInput ↔ returns)

/-- From `s` in batch mode and from `u` in interactive mode the loop goes through the same rounds and
ends in the same way, each session having written its own texts of these rounds. -/
structure Observes (setup : Setup) (unused prompt : String) (s u : Session) (es : List Exchange)
    (result result' : EStateM.Result Fault Session Nat) : Prop where
  batch : Conducts setup false unused s es
  interactive : Conducts setup true prompt u es
  outcome : SameOutcome Eq
    (Wrote (s.machine.output ++ String.join (es.map (·.written)))
      (u.machine.output ++ String.join (es.map (·.text prompt)))) result result'
  ending : EndsOnce es (∃ errors t, result = .ok errors t)

/-! ## One round -/

variable {setup : Setup} {prompt unused : String} {s s' t u : Session} {v : Value} {fault : Fault}

theorem prefixed_silent (s : Session) : s.silent.prefixed s.machine.output = s := by
  show { s with machine := { s.machine with output := s.machine.output ++ "" } } = s
  rw [String.append_empty]

theorem evaluateOne_silent (setup : Setup) (s : Session) :
    SameOutcome Eq (fun t t' => t' = t.prefixed s.machine.output) (evaluateOne setup s.silent)
      (evaluateOne setup s) := by
  have h := evaluateOne_prefixed setup s.machine.output s.silent
  rwa [prefixed_silent] at h

theorem evaluateOne_of_silent_eq_ok (h : evaluateOne setup s.silent = .ok v t) :
    evaluateOne setup s = .ok v (t.prefixed s.machine.output) := by
  obtain ⟨w, t', hone, rfl, rfl⟩ := (h ▸ evaluateOne_silent setup s).exists_of_ok
  exact hone

theorem evaluateOne_of_silent_eq_error (h : evaluateOne setup s.silent = .error fault t) :
    evaluateOne setup s = .error fault (t.prefixed s.machine.output) := by
  obtain ⟨t', hone, rfl⟩ := (h ▸ evaluateOne_silent setup s).exists_of_error
  exact hone

theorem exchange_congr (h : u.silent = s.silent) : u.exchange setup = s.exchange setup := by
  have hsource : u.machine.source = s.machine.source := congrArg (·.machine.source) h
  simp only [exchange, hsource, h]

/-- Unless the input is at its end, both modes recover in the same way and write nothing. -/
theorem recover_alike {a b : String} (h : Wrote a b s u) (hfault : fault ≠ .endOfInput) :
    SameOutcome Eq (Wrote a b) (recover setup false fault s) (recover setup true fault u) := by
  obtain ⟨⟨store, source, output⟩, root, journal⟩ := s
  obtain ⟨⟨store', source', output'⟩, root', journal'⟩ := u
  obtain ⟨hsilent, rfl, rfl⟩ := h
  cases hsilent
  rcases setup with ⟨style, limit, logging⟩
  cases logging <;> cases fault
  all_goals first
    | exact .ok rfl ⟨rfl, rfl, rfl⟩
    | exact .error ⟨rfl, rfl, rfl⟩
    | exact absurd rfl hfault

theorem exchange_of_eq_ok (hone : evaluateOne setup s.silent = .ok v t) :
    (s.exchange setup).written = t.machine.output ∧ (s.exchange setup).answer =
      setup.style.write t.machine.store.closureName setup.writing v := by
  simp only [exchange, Turn.after, hone, and_self]

theorem exchange_of_eq_error (hone : evaluateOne setup s.silent = .error fault t) :
    (s.exchange setup).written = t.machine.output ∧ (s.exchange setup).answer = .error fault := by
  simp only [exchange, Turn.after, hone, and_self]

theorem echo_eq {shown : String}
    (h : setup.style.write s.machine.store.closureName setup.writing v = .ok shown) :
    echo setup true v s = .ok () (s.adding (shown ++ "\n")) := by
  have hshow : perform (Action.inspecting fun store =>
      setup.style.write store.closureName setup.writing v) s = .ok shown s := by
    refine perform_of_eq_ok (m := s.machine) ?_
    show Action.ofExcept (setup.style.write s.machine.store.closureName setup.writing v) s.machine = _
    rw [h]
    rfl
  exact (bind_of_eq_ok hshow).trans rfl

theorem round_batch_of_eq_ok (hone : evaluateOne setup s = .ok v t) :
    round setup false unused s = .ok .evaluated t :=
  tryCatch_of_eq_ok ((bind_of_eq_ok hone).trans rfl)

theorem round_batch_of_eq_error (hone : evaluateOne setup s = .error fault t) :
    round setup false unused s = recover setup false fault t :=
  tryCatch_of_eq_error (bind_of_eq_error hone)

theorem round_interactive_of_eq_ok {shown : String}
    (hone : evaluateOne setup (s.adding prompt) = .ok v t)
    (h : setup.style.write t.machine.store.closureName setup.writing v = .ok shown) :
    round setup true prompt s = .ok .evaluated (t.adding (shown ++ "\n")) :=
  tryCatch_of_eq_ok ((bind_of_eq_ok hone).trans ((bind_of_eq_ok (echo_eq h)).trans rfl))

theorem round_interactive_of_eq_error (hone : evaluateOne setup (s.adding prompt) = .error fault t) :
    round setup true prompt s = recover setup true fault t :=
  tryCatch_of_eq_error (bind_of_eq_error hone)

/-- The loop finishes at the end of the input alone. -/
theorem exists_recover_finished_iff :
    (∃ t, recover setup false fault s = .ok .finished t) ↔ fault = .endOfInput := by
  constructor
  · rintro ⟨t, h⟩
    have hreport := report_eq setup fault s
    cases fault with
    | endOfInput => rfl
    | malformed line cause => exact nomatch (bind_of_eq_ok hreport).symm.trans h
    | misuse cause => exact nomatch (bind_of_eq_ok hreport).symm.trans h
    | unbound cause => exact nomatch (bind_of_eq_ok hreport).symm.trans h
    | tooDeep => exact nomatch (bind_of_eq_ok hreport).symm.trans h
    | slotTaken | tooLong => exact nomatch h
  · rintro rfl
    exact ⟨s, rfl⟩

section Round

variable (h : u.silent = s.silent)
  (hshow : ∀ v t, evaluateOne setup (u.adding prompt) = .ok v t →
    ∃ shown, setup.style.write t.machine.store.closureName setup.writing v = .ok shown)
include h hshow

/-- In one round both modes do the same, and each adds its own text to its output. -/
theorem round_alike :
    SameOutcome Eq
      (Wrote (s.machine.output ++ (s.exchange setup).written)
        (u.machine.output ++ (s.exchange setup).text prompt))
      (round setup false unused s) (round setup true prompt u) := by
  have hadding : (u.adding prompt).silent = s.silent := h
  cases hone : evaluateOne setup s.silent with
  | ok v t =>
    have hu := evaluateOne_of_silent_eq_ok (hadding ▸ hone)
    obtain ⟨shown, hshown⟩ := hshow v _ hu
    obtain ⟨hwritten, hanswer⟩ := exchange_of_eq_ok hone
    have hecho : (s.exchange setup).echo = shown ++ "\n" := by
      rw [Exchange.echo, hanswer]
      exact hshown ▸ rfl
    rw [round_batch_of_eq_ok (evaluateOne_of_silent_eq_ok hone),
      round_interactive_of_eq_ok hu hshown, Exchange.text, hwritten, hecho]
    refine .ok rfl ⟨rfl, rfl, ?_⟩
    simp only [adding, prefixed, Machine.prefixed, String.append_assoc]
  | error fault t =>
    have hu := evaluateOne_of_silent_eq_error (hadding ▸ hone)
    obtain ⟨hwritten, hanswer⟩ := exchange_of_eq_error hone
    rw [round_batch_of_eq_error (evaluateOne_of_silent_eq_error hone),
      round_interactive_of_eq_error hu, Exchange.text, hwritten]
    by_cases hend : fault = .endOfInput
    · subst hend
      have hecho : (s.exchange setup).echo = "\n" := by rw [Exchange.echo, hanswer]
      rw [hecho]
      refine .ok rfl ⟨rfl, rfl, ?_⟩
      show u.machine.output ++ prompt ++ t.machine.output ++ "\n" = _
      simp only [String.append_assoc]
    · rw [Exchange.echo_of_ne_endOfInput hanswer hend]
      refine recover_alike ⟨rfl, rfl, ?_⟩ hend
      show u.machine.output ++ prompt ++ t.machine.output = _
      simp only [String.append_assoc, String.append_empty]

theorem exists_finished_iff (unused : String) :
    (∃ t, round setup false unused s = .ok .finished t) ↔
      (s.exchange setup).answer = .error .endOfInput := by
  have hadding : (u.adding prompt).silent = s.silent := h
  cases hone : evaluateOne setup s.silent with
  | ok v t =>
    obtain ⟨shown, hshown⟩ := hshow v _ (evaluateOne_of_silent_eq_ok (hadding ▸ hone))
    have hanswer : (s.exchange setup).answer = .ok shown := (exchange_of_eq_ok hone).2.trans hshown
    rw [round_batch_of_eq_ok (evaluateOne_of_silent_eq_ok hone), hanswer]
    exact ⟨nofun, nofun⟩
  | error fault t =>
    rw [round_batch_of_eq_error (evaluateOne_of_silent_eq_error hone), (exchange_of_eq_error hone).2,
      exists_recover_finished_iff, Except.error.injEq]

end Round

/-! ## The whole loop -/

theorem CanEcho.one (h : CanEcho setup prompt u) (v : Value) (t : Session)
    (hone : evaluateOne setup (u.adding prompt) = .ok v t) :
    ∃ shown, setup.style.write t.machine.store.closureName setup.writing v = .ok shown :=
  h v t (.here hone)

theorem CanEcho.round {r : Round} (h : CanEcho setup prompt u)
    (hround : round setup true prompt u = .ok r t) (hr : r ≠ .finished) : CanEcho setup prompt t :=
  fun v w hechoes => h v w (.later hround hr hechoes)

theorem EndsOnce.last {e : Exchange} {returns : Prop} (h : returns ↔ e.answer = .error .endOfInput) :
    EndsOnce [e] returns :=
  ⟨[], e, rfl, List.forall_mem_nil _, h.symm⟩

theorem EndsOnce.more {e : Exchange} {es : List Exchange} {returns : Prop}
    (he : e.answer ≠ .error .endOfInput) : EndsOnce es returns → EndsOnce (e :: es) returns := by
  rintro ⟨before, final, rfl, hbefore, hfinal⟩
  exact ⟨e :: before, final, rfl, List.forall_mem_cons.2 ⟨he, hbefore⟩, hfinal⟩

namespace Observes

variable {es : List Exchange} {result result' : EStateM.Result Fault Session Nat}

theorem last (h : u.silent = s.silent) (hshow : CanEcho setup prompt u)
    (hs : ∀ r t, round setup false unused s = .ok r t → r = .finished)
    (hu : ∀ r t, round setup true prompt u = .ok r t → r = .finished)
    (hsame : SameOutcome Eq
      (Wrote (s.machine.output ++ (s.exchange setup).written)
        (u.machine.output ++ (s.exchange setup).text prompt)) result result')
    (hreturns : (∃ errors t, result = .ok errors t) ↔
      ∃ t, round setup false unused s = .ok .finished t) :
    Observes setup unused prompt s u [s.exchange setup] result result' where
  batch := .last hs
  interactive := exchange_congr h ▸ .last hu
  outcome := by simpa only [List.map_cons, List.map_nil, String.join_cons, String.join_nil,
    String.append_empty] using hsame
  ending := .last (hreturns.trans (exists_finished_iff h hshow.one unused))

theorem more {r : Round} {s' u' : Session} (h : u.silent = s.silent)
    (hshow : CanEcho setup prompt u)
    (hs : round setup false unused s = .ok r s') (hu : round setup true prompt u = .ok r u')
    (hr : r ≠ .finished)
    (hwrote : Wrote (s.machine.output ++ (s.exchange setup).written)
      (u.machine.output ++ (s.exchange setup).text prompt) s' u')
    (hrest : Observes setup unused prompt s' u' es result result') :
    Observes setup unused prompt s u (s.exchange setup :: es) result result' where
  batch := .more hs hr hrest.batch
  interactive := exchange_congr h ▸ .more hu hr hrest.interactive
  outcome := by
    have houtcome := hrest.outcome
    rw [hwrote.first, hwrote.second, String.append_assoc, String.append_assoc] at houtcome
    simpa only [List.map_cons, String.join_cons] using houtcome
  ending := by
    refine .more (mt (exists_finished_iff h hshow.one unused).2 ?_) hrest.ending
    rintro ⟨t, ht⟩
    exact hr (EStateM.Result.ok.inj (hs.symm.trans ht)).1

end Observes

/-- Where every value can be shown, the interactive loop goes through the rounds of the loop in
batch mode. -/
theorem Loops.observes {errors n : Nat} {result : EStateM.Result Fault Session Nat}
    (hs : Loops setup false unused errors s n result) (h : u.silent = s.silent)
    (hshow : CanEcho setup prompt u) :
    ∃ es result', Loops setup true prompt errors u n result' ∧
      Observes setup unused prompt s u es result result' := by
  -- The induction is on the loop in batch mode. That the sessions are the same but for their output
  -- is what a round preserves.
  induction hs generalizing u with
  | finished hs =>
    obtain ⟨r, u', hu, rfl, hwrote⟩ := (hs ▸ round_alike h hshow.one).exists_of_ok
    refine ⟨_, _, .finished hu, .last h hshow (fun r t ht => ?_) (fun r t ht => ?_)
      (.ok rfl hwrote) ?_⟩
    · exact (EStateM.Result.ok.inj (hs.symm.trans ht)).1.symm
    · exact (EStateM.Result.ok.inj (hu.symm.trans ht)).1.symm
    · exact ⟨fun _ => ⟨_, hs⟩, fun _ => ⟨_, _, rfl⟩⟩
  | escaped hs =>
    obtain ⟨u', hu, hwrote⟩ := (hs ▸ round_alike h hshow.one).exists_of_error
    refine ⟨_, _, .escaped hu, .last h hshow (fun r t ht => ?_) (fun r t ht => ?_)
      (.error hwrote) ?_⟩
    · exact nomatch hs.symm.trans ht
    · exact nomatch hu.symm.trans ht
    · exact ⟨nofun, fun ⟨_, ht⟩ => nomatch hs.symm.trans ht⟩
  | evaluated hs _ ih =>
    obtain ⟨r, u', hu, rfl, hwrote⟩ := (hs ▸ round_alike h hshow.one).exists_of_ok
    obtain ⟨es, result', hloops, hobserves⟩ := ih hwrote.silent (hshow.round hu nofun)
    exact ⟨_, result', .evaluated hu hloops, .more h hshow hs hu nofun hwrote hobserves⟩
  | recovered hs _ ih =>
    obtain ⟨r, u', hu, rfl, hwrote⟩ := (hs ▸ round_alike h hshow.one).exists_of_ok
    obtain ⟨es, result', hloops, hobserves⟩ := ih hwrote.silent (hshow.round hu nofun)
    exact ⟨_, result', .recovered hu hloops, .more h hshow hs hu nofun hwrote hobserves⟩

/-! ## Deciding what can be echoed -/

/-- Whether every value can be shown that the interactive loop comes to echo in so many rounds. -/
def echoable (setup : Setup) (prompt : String) : (rounds : Nat) → Session → Bool
  | 0, _ => true
  | n + 1, s =>
    (match evaluateOne setup (s.adding prompt) with
      | .ok v t => (setup.style.write t.machine.store.closureName setup.writing v).toBool
      | .error .. => true) &&
    match round setup true prompt s with
      | .ok .finished _ | .error .. => true
      | .ok _ t => echoable setup prompt n t

theorem canEcho_of_echoable {n : Nat} (hn : s.unread.length < n)
    (h : echoable setup prompt n s = true) : CanEcho setup prompt s := by
  induction n generalizing s with
  | zero => omega
  | succ n ih =>
    rw [echoable, Bool.and_eq_true] at h
    obtain ⟨hshown, hrest⟩ := h
    intro v t hechoes
    cases hechoes with
    | here hone =>
      rw [hone] at hshown
      cases hwrite : setup.style.write t.machine.store.closureName setup.writing v with
      | ok shown => exact ⟨shown, rfl⟩
      | error fault => exact nomatch (congrArg Except.toBool hwrite).symm.trans hshown
    | @later _ s' r hround hr hthere =>
      have hlt := (consumes_of_round hround hr).length_lt
      rw [hround] at hrest
      refine ih (by omega) ?_ v t hthere
      cases r with
      | finished => exact absurd rfl hr
      | evaluated => exact hrest
      | recovered => exact hrest

theorem CanEcho.echoable (h : CanEcho setup prompt s) (n : Nat) :
    echoable setup prompt n s = true := by
  induction n generalizing s with
  | zero => rfl
  | succ n ih =>
    rw [Session.echoable, Bool.and_eq_true]
    constructor
    · cases hone : evaluateOne setup (s.adding prompt) with
      | error fault t => rfl
      | ok v t =>
        obtain ⟨shown, hshown⟩ := h.one v t hone
        exact congrArg Except.toBool hshown
    · cases hround : Session.round setup true prompt s with
      | error fault t => rfl
      | ok r t =>
        cases r with
        | finished => rfl
        | evaluated => exact ih (h.round hround nofun)
        | recovered => exact ih (h.round hround nofun)

instance (setup : Setup) (prompt : String) (s : Session) : Decidable (CanEcho setup prompt s) :=
  decidable_of_iff (echoable setup prompt (s.unread.length + 1) s = true)
    ⟨canEcho_of_echoable (Nat.lt_succ_self _), fun h => h.echoable _⟩

end Session

/-- An interactive session does what a session in batch mode does, if every value that it comes to
echo can be shown. From the same session the two loops read the same forms, end with the same store,
source and journal, and return the same number of errors or are left through the same fault in the
same round. What they write differs only in the prompt before each form, in the value on a line of
its own after each form that has one, and in a newline at the end of the input. -/
theorem interactive_only_observes (setup : Setup) (prompt unused : String) (s : Session)
    (hshow : Session.CanEcho setup prompt s) :
    ∃ es, Session.Observes setup unused prompt s s es (Session.run setup false unused s)
        (Session.run setup true prompt s) ∧
      (∀ errors t, Session.run setup false unused s = .ok errors t → t.unread = []) ∧
      ∀ fault t, Session.run setup false unused s = .error fault t → fault = .tooLong := by
  obtain ⟨n, hbatch⟩ := Session.loops_run setup false unused s
  obtain ⟨n', hinteractive⟩ := Session.loops_run setup true prompt s
  obtain ⟨es, result', hloops, hobserves⟩ := hbatch.observes rfl hshow
  obtain ⟨-, rfl⟩ := hloops.unique hinteractive
  exact ⟨es, hobserves, fun errors t h => (hbatch.returned h).1, fun fault t => hbatch.escapes⟩

/-- A form that writes, one that fails and one that has a value. -/
theorem interactive_only_observes_three_forms :
    let setup : Setup := ⟨.plain, 1000, false⟩
    let s := Session.start (.ofString "(print 7)\n(car 1) (quote b)")
    Session.CanEcho setup "> " s ∧
      ∃ es t t', Session.Observes setup "" "> " s s es (.ok 1 t) (.ok 1 t') ∧
        t.machine.output = "7" ∧ t'.machine.output = "> 7ok\n> > b\n> \n" ∧ t.unread = [] := by
  intro setup s
  have hshow : Session.CanEcho setup "> " s := by decide +kernel
  obtain ⟨es, hobserves, hend, -⟩ := interactive_only_observes setup "> " "" s hshow
  obtain ⟨t, ht⟩ := Turn.exists_eq_ok (t := Session.run setup false "") (s := s) (v := 1)
    (by decide +kernel)
  obtain ⟨t', ht'⟩ := Turn.exists_eq_ok (t := Session.run setup true "> ") (s := s) (v := 1)
    (by decide +kernel)
  have hbatch : ((Session.run setup false "").after s).machine.output = "7" := by decide +kernel
  have hinteractive : ((Session.run setup true "> ").after s).machine.output =
      "> 7ok\n> > b\n> \n" := by decide +kernel
  rw [Turn.after, ht] at hbatch
  rw [Turn.after, ht'] at hinteractive
  rw [ht, ht'] at hobserves
  exact ⟨hshow, es, t, t', hobserves, hbatch, hinteractive, hend 1 t ht⟩

end Keel
