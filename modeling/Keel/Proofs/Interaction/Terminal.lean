import Keel.Proofs.Causality.Session
import Keel.Proofs.Interaction.Transcript
import Keel.Session.Terminal

/-! # Interactive sessions on a terminal

A round that leaves the newline behind what has arrived unread is the round of the
loop, whatever follows: no token and no comment runs past a complete line. So a
session that asks for a line whenever a round needs one goes through the rounds that
the loop goes through on all the lines at once.
-/

namespace Keel

variable {setup : Setup} {prompt written : String} {told : List Entry} {t t' tail : List Char}

namespace Coupling.causal

theorem couples_skipLine : (causal t t' written).Couples
    (modify fun m => { m with source := m.source.skipLine })
    (modify fun m => { m with source := m.source.skipLine }) where
  adrift {m} hlost hleft := hlost (hleft.trans m.source.advancesTo_skipLine.suffix)
  agrees {m n} hmn := by
    by_cases hleft : t <:+ m.source.skipLine.unread
    · exact .inr ⟨_, rfl, hmn.store, hmn.output, hmn.source.skipLine hleft⟩
    · exact .inl hleft

end Coupling.causal

namespace Session

variable {s s' u u' : Session}

/-! ## One round -/

section Couples

open Coupling

theorem couples_perform {α : Type} {a b : Action α}
    (h : (Coupling.causal t t' written).Couples a b) :
    (causal t t' written told).Couples (perform a) (perform b) := by
  rw [causal, session_eq]
  exact closed_strict.couples_perform h

theorem couples_echo (interactive : Bool) (v : Value) :
    (causal t t' written told).Couples (echo setup interactive v) (echo setup interactive v) := by
  unfold echo
  split
  · exact closed_strict.bind (couples_perform (causal.sameStore.inspecting _)) fun _ =>
      couples_perform (causal.couples_write _)
  · exact couples_pure ()

theorem couples_report (fault : Fault) :
    (causal t t' written told).Couples (report setup fault) (report setup fault) where
  adrift hlost := by
    rw [report_eq]
    exact hlost
  agrees h := by
    obtain ⟨hmachine, hroot, hjournal⟩ := h
    rw [report_eq, report_eq, hjournal]
    refine .inr ⟨_, rfl, hmachine, hroot, ?_⟩
    simp only [List.cons_append, List.append_assoc]

theorem couples_recover (interactive : Bool) (fault : Fault) :
    (causal t t' written told).Couples (recover setup interactive fault)
      (recover setup interactive fault) := by
  have hreported : (causal t t' written told).Couples
      (do report setup fault; return Round.recovered)
      (do report setup fault; return Round.recovered) :=
    closed_strict.bind (couples_report fault) fun _ => couples_pure _
  cases fault with
  | endOfInput =>
    cases interactive with
    | false => exact couples_pure _
    | true => exact closed_strict.bind (couples_perform (causal.couples_write _)) fun _ =>
        couples_pure _
  | malformed line cause =>
    exact closed_strict.bind (couples_report _) fun _ =>
      closed_strict.bind (couples_perform causal.couples_skipLine) fun _ => couples_pure _
  | misuse cause => exact hreported
  | unbound cause => exact hreported
  | tooDeep => exact hreported
  | slotTaken held refused => exact closed_strict.throw _
  | tooLong => exact closed_strict.throw _

/-- A round has the same outcome on both sources, unless the first run reads too far. -/
theorem couples_round (interactive : Bool) (prompt : String) :
    (causal t t' written told).Couples (round setup interactive prompt)
      (round setup interactive prompt) := by
  have hturn : (causal t t' written told).Couples
      (tryCatch (turn setup interactive) (recover setup interactive))
      (tryCatch (turn setup interactive) (recover setup interactive)) :=
    couples_tryCatch (closed_strict.bind (couples_evaluateOne setup) fun v =>
      closed_strict.bind (couples_echo interactive v) fun _ => couples_pure _)
      (couples_recover interactive)
  cases interactive with
  | false => exact hturn
  | true => exact closed_strict.bind (couples_perform (causal.couples_write prompt)) fun _ => hturn

end Couples

/-- The second session is the first in which something has been written and told before, and in
which `tail` has arrived as well. No token runs from what the first has to read into `tail`. -/
structure Precedes (tail : List Char) (written : String) (told : List Entry) (s u : Session) :
    Prop where
  store : u.machine.store = s.machine.store
  output : u.machine.output = written ++ s.machine.output
  unread : u.unread = s.unread ++ tail
  line : u.machine.source.line = s.machine.source.line
  root : u.root = s.root
  journal : u.journal = s.journal ++ told
  apart : Grammar.Delimited tail ∨ Text.Whole s.unread

theorem unread_hear (cs : List Char) (s : Session) : (s.hear cs).unread = s.unread ++ cs :=
  Source.unread_followedBy cs s.machine.source

theorem eq_of_retract (h : s.retract = some s') :
    s.unread ≠ [] ∧ s' = s.on s.machine.source.dropLast := by
  unfold retract at h
  split at h
  · exact nomatch h
  · next hne => exact ⟨hne, (Option.some.inj h).symm⟩

namespace Precedes

theorem related (h : Precedes tail written told s u) :
    (causal ['\n'] tail written told).Related (s.hear ['\n']) u := by
  exact ⟨⟨h.store, h.output, ⟨s.unread, unread_hear _ s, h.unread, .inr ⟨rfl, h.apart⟩⟩, h.line⟩,
    h.root, h.journal⟩

theorem of_related (h : (causal ['\n'] tail written told).Related s u) (hs : s.retract = some s') :
    Precedes tail written told s' u := by
  obtain ⟨⟨hstore, houtput, ⟨q, hq, hq', hparts⟩, hline⟩, hroot, hjournal⟩ := h
  obtain rfl : q = s.machine.source.unread.dropLast := by rw [hq, List.dropLast_concat]
  obtain ⟨-, rfl⟩ := eq_of_retract hs
  refine ⟨hstore, houtput, hq', hline, hroot, hjournal, ?_⟩
  rcases hparts with hhead | ⟨-, happart⟩
  · refine .inl fun c hc => ?_
    obtain rfl : '\n' = c := Option.some.inj (hhead.symm.trans hc)
    decide
  · exact happart

end Precedes

theorem suffix_round (setup : Setup) (interactive : Bool) (prompt : String) (s : Session) :
    ((round setup interactive prompt).after s).unread <:+ s.unread := by
  have hround := rounded_round setup interactive prompt s
  unfold Turn.after
  cases hr : round setup interactive prompt s with
  | ok r s' =>
    rw [hr] at hround
    cases hround with
    | finished hend => exact hend ▸ List.nil_suffix
    | evaluated hconsumes => exact hconsumes.suffix
    | recovered hconsumes => exact hconsumes.suffix
  | error fault s' =>
    rw [hr] at hround
    cases hround with
    | escaped hconsumes => exact hconsumes.suffix

/-- The character that can be taken back has not been read. -/
theorem suffix_of_retract {c : Char} {cs : List Char} (h : s.retract = some s')
    (hs : s.unread <:+ cs ++ [c]) : [c] <:+ s.unread :=
  List.suffix_of_suffix_length_le (List.suffix_append cs [c]) hs
    (List.length_pos_iff.2 (eq_of_retract h).1)

theorem retracts_of_attempt {result : EStateM.Result Fault Session Round}
    (h : attempt setup s = some result) :
    SameOutcome Eq (fun t t' => t.retract = some t') (round setup true "" (s.hear ['\n']))
      result := by
  unfold attempt at h
  cases hround : round setup true "" (s.hear ['\n']) with
  | ok r t =>
    rw [hround] at h
    obtain ⟨t', ht, rfl⟩ := Option.map_eq_some_iff.1 h
    exact .ok rfl ht
  | error fault t =>
    rw [hround] at h
    obtain ⟨t', ht, rfl⟩ := Option.map_eq_some_iff.1 h
    exact .error ht

/-- A round that got on with what had arrived is the same with more. -/
theorem sameOutcome_attempt {result : EStateM.Result Fault Session Round}
    (h : Precedes tail written told s u) (hattempt : attempt setup s = some result) :
    SameOutcome Eq (Precedes tail written told) result (round setup true "" u) := by
  have hagrees : (causal ['\n'] tail written told).Agrees (round setup true "" (s.hear ['\n']))
      (round setup true "" u) := (couples_round true "").agrees h.related
  have hsuffix := suffix_round setup true "" (s.hear ['\n'])
  rw [unread_hear] at hsuffix
  have hretracts := retracts_of_attempt hattempt
  unfold Turn.after at hsuffix
  cases hround : round setup true "" (s.hear ['\n']) with
  | ok r t =>
    rw [hround] at hagrees hretracts hsuffix
    obtain ⟨_, t', rfl, rfl, ht⟩ := hretracts.exists_of_ok
    have hleft := suffix_of_retract ht hsuffix
    obtain ⟨_, u', hu, rfl, hrelated⟩ := (hagrees.sameOutcome (not_not.2 hleft)).exists_of_ok
    rw [hu]
    exact .ok rfl (.of_related hrelated ht)
  | error fault t =>
    rw [hround] at hagrees hretracts hsuffix
    obtain ⟨t', rfl, ht⟩ := hretracts.exists_of_error
    have hleft := suffix_of_retract ht hsuffix
    obtain ⟨u', hu, hrelated⟩ :=
      (hagrees.sameOutcome fun hadrift => hadrift.lost hleft).exists_of_error
    rw [hu]
    exact .error (.of_related hrelated ht)

theorem Precedes.sameOutcome_round (h : Precedes [] written told s u) (interactive : Bool)
    (prompt : String) :
    SameOutcome Eq (Precedes [] written told) (round setup interactive prompt s)
      (round setup interactive prompt u) := by
  have hrelated : (causal [] [] written told).Related s u :=
    ⟨⟨h.store, h.output, ⟨_, (List.append_nil _).symm, h.unread, .inl rfl⟩, h.line⟩, h.root,
      h.journal⟩
  have hround : (causal [] [] written told).Agrees (round setup interactive prompt s)
      (round setup interactive prompt u) := (couples_round interactive prompt).agrees hrelated
  refine (hround.sameOutcome ?_).imp (fun _ _ => id) ?_
  · cases round setup interactive prompt s with
    | ok r t => exact not_not.2 List.nil_suffix
    | error fault t => exact fun hadrift => hadrift.lost List.nil_suffix
  · rintro t t' ⟨⟨hstore, houtput, ⟨q, hq, hq', -⟩, hline⟩, hroot, hjournal⟩
    exact ⟨hstore, houtput, hq'.trans (congrArg (· ++ []) ((List.append_nil q).symm.trans hq.symm)),
      hline, hroot, hjournal, .inl nofun⟩

/-! ## The whole session -/

def since (written : String) (told : List Entry) (s : Session) : Session :=
  { s with machine := s.machine.prefixed written, journal := s.journal ++ told }

/-- A session on a terminal, which has prompted for a round: the given lines are still to arrive
unless the input has ended, errors have been counted, and something has been written and told in
earlier rounds. It asks for a line whenever a round needs one, until it ends in the result. -/
inductive Converses (setup : Setup) (prompt : String) :
    (ended : Bool) → List (List Char) → (errors : Nat) → (written : String) → List Entry → Session →
      EStateM.Result Fault Session Nat → Prop where
  | heard {line : List Char} {lines : List (List Char)} {errors : Nat} {written : String}
      {told : List Entry} {s : Session} {result : EStateM.Result Fault Session Nat} :
      nextRound setup false s = none →
      Converses setup prompt false lines errors written told (s.hear line) result →
      Converses setup prompt false (line :: lines) errors written told s result
  | ended {errors : Nat} {written : String} {told : List Entry} {s : Session}
      {result : EStateM.Result Fault Session Nat} :
      nextRound setup false s = none →
      Converses setup prompt true [] errors written told s result →
      Converses setup prompt false [] errors written told s result
  | finished {ended : Bool} {lines : List (List Char)} {errors : Nat} {written : String}
      {told : List Entry} {s t : Session} :
      nextRound setup ended s = some (.ok .finished t) →
      Converses setup prompt ended lines errors written told s (.ok errors (t.since written told))
  | escaped {ended : Bool} {lines : List (List Char)} {errors : Nat} {written : String}
      {told : List Entry} {s t : Session} {fault : Fault} :
      nextRound setup ended s = some (.error fault t) →
      Converses setup prompt ended lines errors written told s
        (.error fault (t.since written told))
  | evaluated {ended : Bool} {lines : List (List Char)} {errors : Nat} {written : String}
      {told : List Entry} {s t : Session} {result : EStateM.Result Fault Session Nat} :
      nextRound setup ended s = some (.ok .evaluated t) →
      Converses setup prompt ended lines errors (written ++ t.machine.output ++ prompt)
        (t.journal ++ told) t.cleared result →
      Converses setup prompt ended lines errors written told s result
  | recovered {ended : Bool} {lines : List (List Char)} {errors : Nat} {written : String}
      {told : List Entry} {s t : Session} {result : EStateM.Result Fault Session Nat} :
      nextRound setup ended s = some (.ok .recovered t) →
      Converses setup prompt ended lines (errors + 1) (written ++ t.machine.output ++ prompt)
        (t.journal ++ told) t.cleared result →
      Converses setup prompt ended lines errors written told s result

/-- The sessions are the same, but for what has not arrived yet in the first. -/
def SameSoFar (s u : Session) : Prop :=
  ∃ tail, Precedes tail "" [] s u

theorem round_eq (setup : Setup) (prompt : String) (s : Session) :
    round setup true prompt s = round setup true "" (s.adding prompt) := by
  have hprompt : round setup true "" (s.adding prompt) =
      round setup true prompt s := by
    show tryCatch (turn setup true) (recover setup true) ((s.adding prompt).adding "") = _
    rw [adding, adding, String.append_empty]
    rfl
  exact hprompt.symm

namespace Precedes

theorem sameSoFar (h : Precedes tail written told s u) : SameSoFar (s.since written told) u :=
  ⟨tail, h.store, h.output.trans String.empty_append.symm, h.unread, h.line, h.root,
    h.journal.trans (List.append_nil _).symm, h.apart⟩

theorem next (h : Precedes tail written told s u) (prompt : String) :
    Precedes tail (written ++ s.machine.output ++ prompt) (s.journal ++ told) s.cleared
      (u.adding prompt) where
  store := h.store
  output := by
    show u.machine.output ++ prompt = written ++ s.machine.output ++ prompt ++ ""
    rw [h.output, String.append_empty]
  unread := h.unread
  line := h.line
  root := h.root
  journal := h.journal
  apart := h.apart

end Precedes

/-- What may arrive: complete lines but for the last, and none at the end of the input. -/
structure Arrives (ended : Bool) (lines : List (List Char)) : Prop where
  whole : ∀ line ∈ lines.dropLast, Text.Whole line
  eq_nil : ended = true → lines = []

theorem Arrives.of_cons {line : List Char} {lines : List (List Char)}
    (h : Arrives false (line :: lines)) : Arrives false lines where
  whole l hl := h.whole l <| by
    cases lines with
    | nil => exact nomatch hl
    | cons line' lines => exact List.mem_cons_of_mem line hl
  eq_nil := nofun

theorem Precedes.hear {line : List Char} {lines : List (List Char)}
    (h : Precedes (line :: lines).flatten written told s u)
    (harrives : Arrives false (line :: lines)) :
    Precedes lines.flatten written told (s.hear line) u where
  store := h.store
  output := h.output
  unread := by
    rw [unread_hear, List.append_assoc, ← List.flatten_cons]
    exact h.unread
  line := h.line
  root := h.root
  journal := h.journal
  apart := by
    rw [unread_hear]
    cases lines with
    | nil => exact .inl nofun
    | cons line' lines =>
      have hwhole : Text.Whole line := harrives.whole line List.mem_cons_self
      rcases eq_or_ne line [] with rfl | hline
      · rw [List.append_nil]
        exact h.apart
      · refine .inr fun c hc => hwhole c ?_
        rwa [List.getLast?_append_of_ne_nil _ hline] at hc

section Conversation

variable {ended : Bool} {lines : List (List Char)} {errors : Nat}

theorem sameOutcome_nextRound {result : EStateM.Result Fault Session Round}
    (h : Precedes lines.flatten written told s (u.adding prompt)) (harrives : Arrives ended lines)
    (hnext : nextRound setup ended s = some result) :
    SameOutcome Eq (Precedes lines.flatten written told) result (round setup true prompt u) := by
  rw [round_eq]
  cases ended with
  | false => exact sameOutcome_attempt h hnext
  | true =>
    obtain rfl := harrives.eq_nil rfl
    obtain rfl := Option.some.inj hnext
    exact h.sameOutcome_round true ""

/-- On a terminal the session goes through the rounds of the loop. -/
theorem Converses.exists_loops {result : EStateM.Result Fault Session Nat}
    (h : Converses setup prompt ended lines errors written told s result)
    (harrives : Arrives ended lines)
    (hu : Precedes lines.flatten written told s (u.adding prompt)) :
    ∃ n result', Loops setup true prompt errors u n result' ∧
      SameOutcome Eq SameSoFar result result' := by
  induction h generalizing u with
  | heard _ _ ih => exact ih harrives.of_cons (hu.hear harrives)
  | ended _ _ ih => exact ih ⟨nofun, fun _ => rfl⟩ hu
  | finished hnext =>
    obtain ⟨r, u', hr, rfl, hu'⟩ := (sameOutcome_nextRound hu harrives hnext).exists_of_ok
    exact ⟨1, _, .finished hr, .ok rfl hu'.sameSoFar⟩
  | escaped hnext =>
    obtain ⟨u', hr, hu'⟩ := (sameOutcome_nextRound hu harrives hnext).exists_of_error
    exact ⟨1, _, .escaped hr, .error hu'.sameSoFar⟩
  | evaluated hnext _ ih =>
    obtain ⟨r, u', hr, rfl, hu'⟩ := (sameOutcome_nextRound hu harrives hnext).exists_of_ok
    obtain ⟨n, result', hloops, hsame⟩ := ih harrives (hu'.next prompt)
    exact ⟨n + 1, result', .evaluated hr hloops, hsame⟩
  | recovered hnext _ ih =>
    obtain ⟨r, u', hr, rfl, hu'⟩ := (sameOutcome_nextRound hu harrives hnext).exists_of_ok
    obtain ⟨n, result', hloops, hsame⟩ := ih harrives (hu'.next prompt)
    exact ⟨n + 1, result', .recovered hr hloops, hsame⟩

/-- A round that does not finish leaves less to be read than had arrived. -/
theorem length_lt_of_nextRound {r : Round} (h : nextRound setup ended s = some (.ok r s'))
    (hr : r ≠ .finished) : s'.cleared.unread.length < s.unread.length := by
  show s'.unread.length < s.unread.length
  cases ended with
  | true => exact (consumes_of_round (Option.some.inj h) hr).length_lt
  | false =>
    have hretracts := retracts_of_attempt h
    cases hround : round setup true "" (s.hear ['\n']) with
    | error fault t =>
      rw [hround] at hretracts
      exact nomatch hretracts
    | ok r' t =>
      rw [hround] at hretracts
      obtain ⟨_, t', heq, rfl, hretract⟩ := hretracts.exists_of_ok
      obtain ⟨rfl, rfl⟩ := EStateM.Result.ok.inj heq
      have hlt := (consumes_of_round hround hr).length_lt
      rw [unread_hear, List.length_append] at hlt
      obtain ⟨hne, rfl⟩ := eq_of_retract hretract
      have hdropped : (t.on t.machine.source.dropLast).unread.length = t.unread.length - 1 :=
        List.length_dropLast
      have hpos := List.length_pos_iff.2 hne
      simp only [List.length_singleton] at hlt
      omega

theorem exists_converses (setup : Setup) (prompt : String) (errors : Nat) (written : String)
    (told : List Entry) (s : Session) (harrives : Arrives ended lines) :
    ∃ result, Converses setup prompt ended lines errors written told s result := by
  -- A round takes a character that has arrived, and a line that arrives is one line less.
  induction hn : lines.flatten.length + s.unread.length + lines.length + (!ended).toNat
    using Nat.strongRecOn generalizing ended lines errors written told s with
  | ind n ih =>
    cases hnext : nextRound setup ended s with
    | none =>
      cases ended with
      | true => exact nomatch hnext
      | false =>
        cases lines with
        | nil =>
          have hended : Arrives true [] := ⟨List.forall_mem_nil _, fun _ => rfl⟩
          obtain ⟨result, h⟩ := ih _ (by simp at hn ⊢; omega) errors written told s hended rfl
          exact ⟨result, .ended hnext h⟩
        | cons line lines =>
          have hheard : (s.hear line).unread.length = s.unread.length + line.length := by
            rw [unread_hear, List.length_append]
          obtain ⟨result, h⟩ := ih _ (by simp at hn ⊢; omega) errors written told (s.hear line)
            harrives.of_cons rfl
          exact ⟨result, .heard hnext h⟩
    | some result =>
      cases result with
      | error fault t => exact ⟨_, .escaped hnext⟩
      | ok r t =>
        cases r with
        | finished => exact ⟨_, .finished hnext⟩
        | evaluated =>
          have hlt := length_lt_of_nextRound hnext nofun
          obtain ⟨result, h⟩ := ih _ (by subst hn; simpa using hlt) errors _ _ t.cleared
            harrives rfl
          exact ⟨result, .evaluated hnext h⟩
        | recovered =>
          have hlt := length_lt_of_nextRound hnext nofun
          obtain ⟨result, h⟩ := ih _ (by subst hn; simpa using hlt) (errors + 1) _ _ t.cleared
            harrives rfl
          exact ⟨result, .recovered hnext h⟩

end Conversation

theorem precedes_start (cs : List Char) (prompt : String) :
    Precedes cs prompt [] (start (.ofString "")) ((start (.ofChars cs)).adding prompt) := by
  unfold start
  generalize Store.empty.newBasis = basis
  exact ⟨rfl, String.empty_append.trans String.append_empty.symm, rfl, rfl, rfl, rfl, .inr nofun⟩

end Session

/-- However the lines of a text arrive on a terminal, an interactive session that asks for a line
whenever a round needs one comes to an end, and it is the loop on the whole text: it writes and
tells the same, counts the same errors or is left through the same fault, and ends in the same
store, and where the loop has read the text the session has read what has arrived of it. -/
theorem converses_as_run (setup : Setup) (prompt : String) {lines : List (List Char)}
    (hlines : ∀ line ∈ lines.dropLast, Text.Whole line) :
    let s := Session.start (.ofString "")
    (∃ result, Session.Converses setup prompt false lines 0 prompt [] s result) ∧
      ∀ result, Session.Converses setup prompt false lines 0 prompt [] s result →
        SameOutcome Eq Session.SameSoFar result
          (Session.run setup true prompt (.start (.ofChars lines.flatten))) := by
  have harrives : Session.Arrives false lines := ⟨hlines, nofun⟩
  refine ⟨Session.exists_converses setup prompt 0 prompt [] _ harrives, fun result h => ?_⟩
  obtain ⟨n, result', hloops, hsame⟩ :=
    h.exists_loops harrives (Session.precedes_start lines.flatten prompt)
  obtain ⟨n', hrun⟩ := Session.loops_run setup true prompt (.start (.ofChars lines.flatten))
  obtain ⟨-, rfl⟩ := hloops.unique hrun
  exact hsame

end Keel
