import Mathlib
import Keel.Proofs.Causality.Reading
import Keel.Proofs.Coupling.Session
import Keel.Proofs.Discipline.Session

/-! # A form does not depend on what it leaves unread

Machines are compared as long as nothing is read beyond a certain point, from where
the one source goes on differently from the other. A form that reads nothing beyond
it could not see what is there, so it has the same outcome in both sessions,
whatever the second has written and told before.
-/

namespace Keel

variable {t t' : List Char} {written : String} {told : List Entry}

/-- The machines differ at most in what follows in their sources, and in what the second has written
before. -/
structure Machine.Twin (t t' : List Char) (written : String) (m n : Machine) : Prop where
  store : n.store = m.store
  output : n.output = written ++ m.output
  source : m.source.Twin t t' n.source

namespace Coupling

/-- Two runs on sources that go on differently; the first gets lost when it reads of what it goes on
with. -/
abbrev causal (t t' : List Char) (written : String) : Coupling Machine :=
  strict (Machine.Twin t t' written) fun m => ¬ t <:+ m.source.unread

namespace causal

theorem sameStore : (causal t t' written).SameStore where
  toClosed := closed_strict
  store h := h.store
  update h := ⟨rfl, h.output, h.source⟩
  lost_update := id

theorem couples_nextChar : (causal t t' written).Couples Action.nextChar Action.nextChar where
  adrift {m} hlost hleft := hlost (hleft.trans m.source.advancesTo_next.suffix)
  agrees {m n} hmn := by
    by_cases hleft : t <:+ m.source.next.2.unread
    · obtain ⟨hchar, hsource⟩ := hmn.source.next hleft
      refine .inr ⟨{ n with source := n.source.next.2 }, ?_, hmn.store, hmn.output, hsource⟩
      have hn : Action.nextChar n =
          .ok n.source.next.1 { n with source := n.source.next.2 } := rfl
      rw [hn, hchar]
      rfl
    · exact .inl hleft

theorem couples_write (text : String) :
    (causal t t' written).Couples (Action.write text) (Action.write text) where
  adrift hlost := hlost
  agrees {m n} hmn := by
    refine .inr ⟨_, rfl, hmn.store, ?_, hmn.source⟩
    show n.output ++ text = written ++ (m.output ++ text)
    rw [hmn.output, String.append_assoc]

theorem lawful (style : Style) (limit : Nat) : (causal t t' written).Lawful style limit limit :=
  sameStore.lawful couples_nextChar couples_write

end causal

end Coupling

namespace Session

def on (source : Source) (s : Session) : Session :=
  { s with machine := { s.machine with source } }

/-- Two sessions on sources that go on differently, the second of which has written and told
something before. -/
abbrev causal (t t' : List Char) (written : String) (told : List Entry) : Coupling Session :=
  Coupling.session (Machine.Twin t t' written) (fun m => ¬ t <:+ m.source.unread)
    fun j j' => j' = j ++ told

variable {s s' : Session} {source source' : Source} {q : List Char}

/-- Sessions of which neither has done more than the other differ in their sources only. -/
theorem exists_eq_on (h : (causal t t' "" []).Related s s')
    (hleft : s.machine.source.unread = q ++ t) :
    ∃ source, s' = s.on source ∧ source.unread = q ++ t' ∧
      source.line = s.machine.source.line := by
  obtain ⟨⟨store, rest, output⟩, root, journal⟩ := s'
  obtain ⟨⟨rfl, houtput, ⟨⟨q', hs, hs', -⟩, hline⟩⟩, rfl, hjournal⟩ := h
  obtain rfl : output = s.machine.output := houtput.trans String.empty_append
  obtain rfl : journal = s.journal := hjournal.trans (List.append_nil _)
  have hq : q' = q := List.append_cancel_right (hs.symm.trans hleft)
  exact ⟨rest, rfl, hq ▸ hs', hline⟩

theorem couples_form (setup : Setup) (d : Datum) (line : Int) :
    (causal t t' written told).Couples (accept setup d line >>= evaluateValue setup)
      (accept setup d line >>= evaluateValue setup) := by
  refine Coupling.couples_form (Coupling.causal.lawful _) ?_ d line
  exact fun e _ _ hj => congrArg (e :: ·) hj

/-- One form has the same outcome on both sources, unless the first run reads too far. -/
theorem couples_evaluateOne (setup : Setup) :
    (causal t t' written told).Couples (evaluateOne setup) (evaluateOne setup) where
  adrift {s} hlost := by
    have hsuffix := (Datum.advancesTo_read setup.reading s.machine.source).suffix
    rw [evaluateOne_eq]
    revert hsuffix
    rcases Datum.read setup.reading s.machine.source with ⟨fault | d, rest⟩
    · exact fun hsuffix _ => .inl fun hleft => hlost (hleft.trans hsuffix)
    · intro hsuffix
      exact (couples_form setup d rest.line).adrift fun hleft => hlost (hleft.trans hsuffix)
  agrees {s s'} h := by
    obtain ⟨⟨hstore, houtput, hsource⟩, hroot, hjournal⟩ := h
    have htwin : t <:+ (Datum.read setup.reading s.machine.source).2.unread → _ :=
      Datum.twin_read hsource
    rw [evaluateOne_eq, evaluateOne_eq]
    revert htwin
    rcases Datum.read setup.reading s.machine.source with ⟨result, rest⟩
    rcases Datum.read setup.reading s'.machine.source with ⟨result', rest'⟩
    intro htwin
    by_cases hleft : t <:+ rest.unread
    · obtain ⟨hresult, hrest⟩ := htwin hleft
      obtain rfl : result' = result := hresult
      have hrelated : (causal t t' written told).Related (s.on rest) (s'.on rest') :=
        ⟨⟨hstore, houtput, hrest⟩, hroot, hjournal⟩
      cases result' with
      | error fault => exact .inr ⟨s'.on rest', rfl, hrelated⟩
      | ok d =>
        have hline : rest'.line = rest.line := hrest.line
        simp only [hline]
        exact (couples_form setup d rest.line).agrees hrelated
    · cases result with
      | error fault => exact .inl hleft
      | ok d =>
        have hlost : (causal t t' written told).Lost (s.on rest) := hleft
        exact ((couples_form setup d rest.line).adrift hlost).agrees

end Session

variable {c : Char} {r r' : List Char}

/-- A form that leaves a character unread, and what comes after it, is evaluated in the same way
whatever comes after it: with the same answer, the same effects and the same line reached. -/
theorem evaluateOne_causal (setup : Setup) (s : Session) (source : Source) {p q : List Char}
    (hs : s.machine.source.unread = p ++ c :: r) (hsource : source.unread = p ++ c :: r')
    (hline : source.line = s.machine.source.line)
    (hleft : ((Session.evaluateOne setup).after s).machine.source.unread = q ++ c :: r) :
    ∃ source', source'.unread = q ++ c :: r' ∧
      source'.line = ((Session.evaluateOne setup).after s).machine.source.line ∧
      Session.evaluateOne setup (s.on source) = match Session.evaluateOne setup s with
        | .ok v s' => .ok v (s'.on source')
        | .error fault s' => .error fault (s'.on source') := by
  have hrelated : (Session.causal (c :: r) (c :: r') "" []).Related s (s.on source) :=
    ⟨⟨rfl, String.empty_append.symm, ⟨p, hs, hsource, .inl rfl⟩, hline⟩, rfl,
      (List.append_nil _).symm⟩
  have hagrees := (Session.couples_evaluateOne setup).agrees hrelated
  have hkept : c :: r <:+ q ++ c :: r := List.suffix_append q (c :: r)
  unfold Turn.after at hleft ⊢
  cases hout : Session.evaluateOne setup s with
  | ok v s' =>
    rw [hout] at hagrees hleft
    rcases hagrees with hlost | ⟨t, heq, hrelated⟩
    · exact absurd (hleft ▸ hkept) hlost
    · obtain ⟨source', rfl, hunread, hline'⟩ := Session.exists_eq_on hrelated hleft
      exact ⟨source', hunread, hline', heq⟩
  | error fault s' =>
    rw [hout] at hagrees hleft
    rcases hagrees with hlost | ⟨t, heq, hrelated⟩
    · exact absurd (hleft ▸ hkept) hlost
    · obtain ⟨source', rfl, hunread, hline'⟩ := Session.exists_eq_on hrelated hleft
      exact ⟨source', hunread, hline', eq_error_of_failureOf heq⟩

/-- The form reads the character behind it, and what comes after that is left unread. -/
theorem evaluateOne_causal_getchar :
    let store := (((Store.empty.newFrame none).2).define 0 "get" (.primitive 0 .getchar)).2
    let text := ['(', 'g', 'e', 't', ')', 'x']
    let s : Session := ⟨⟨store, .ofChars (text ++ 'y' :: ['z']), ""⟩, 0, []⟩
    let source := Source.ofChars (text ++ 'y' :: [')'])
    let setup : Setup := ⟨.plain, 140, false⟩
    ((Session.evaluateOne setup).after s).machine.source.unread = [] ++ 'y' :: ['z'] ∧
      ∃ source' : Source, source'.unread = [] ++ 'y' :: [')'] ∧
        source'.line = ((Session.evaluateOne setup).after s).machine.source.line ∧
        Session.evaluateOne setup (s.on source) = match Session.evaluateOne setup s with
          | .ok v s' => .ok v (s'.on source')
          | .error fault s' => .error fault (s'.on source') := by
  intro store text s source setup
  have hleft :
      ((Session.evaluateOne setup).after s).machine.source.unread = [] ++ 'y' :: ['z'] := by
    cbv
  have hs : s.machine.source.unread = text ++ 'y' :: ['z'] := Source.unread_ofChars _
  have hsource : source.unread = text ++ 'y' :: [')'] := Source.unread_ofChars _
  exact ⟨hleft, evaluateOne_causal setup s source hs hsource rfl hleft⟩

end Keel
