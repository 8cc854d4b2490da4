import Mathlib
import Keel.Proofs.Concatenation.Append
import Keel.Proofs.Concatenation.Shift
import Keel.Proofs.Coupling.Session
import Keel.Proofs.Stream.Loop

/-! # Evaluating texts put together

The forms of a text are read and evaluated one at a time. With more behind a
newline the same forms come first, with the same effects, and then those of the
text behind the newline. These are evaluated as they would be by themselves, but
their lines are numbered on from the first text.
-/

namespace Keel

open Relation (ReflTransGen)

def Record.shift (k : Int) : Record → Record
  | .read shown line => .read shown (line + k)
  | r => r

def Entry.shift (k : Int) : Entry → Entry
  | .logged r => .logged (r.shift k)
  | e => e

/-- On top of a common journal both tell the same, the second with lines numbered `k` higher. -/
def Tells (k : Int) (base j j' : List Entry) : Prop :=
  ∃ told, j = told ++ base ∧ j' = told.map (Entry.shift k) ++ base

theorem Tells.cons {k : Int} {base j j' : List Entry} (h : Tells k base j j') (e : Entry) :
    Tells k base (e :: j) (e.shift k :: j') := by
  obtain ⟨told, rfl, rfl⟩ := h
  exact ⟨e :: told, rfl, rfl⟩

namespace Session

variable {setup : Setup} {k : Int} {base : List Entry} {s s' : Session}

/-- Reading a form on a later line does not change what it does. -/
theorem tracks_laterForm (setup : Setup) (k : Int) (base : List Entry) (d : Datum) (line : Int) :
    TurnTracks (fun _ => False) (Tells k base) (accept setup d line >>= evaluateValue setup)
      (accept setup d (line + k) >>= evaluateValue setup) := by
  have hclosed : (Departure.after fun _ _ => False).Closed := Departure.closed_after
  have hlawful := hclosed.lawful setup.style setup.inspecting
  let ev := evaluate setup.style setup.evaluating
  have hev : EvaluatorTracks (Departure.after fun _ _ => False) ev ev :=
    fun f expr => hclosed.refl (evaluate _ _ f expr)
  apply hlawful.onSessions.bind
  · apply hlawful.couples_accept
    intro text j j' hj
    exact hj.cons (.logged (.read text line))
  · apply hlawful.couples_evaluateValue hev.couples
    intro text text' j j' hj
    exact hj.cons (.logged (.evaluated text text'))

/-! ## Form by form -/

section Forms

variable {last : Value} {text rest : Source}

theorem evaluateForms_of_read {d : Datum} (h : Datum.read setup.reading text = (.ok d, rest)) :
    evaluateForms setup last text = (accept setup d rest.line >>= evaluateValue setup) >>=
      fun v => evaluateForms setup v rest := by
  rw [evaluateForms, bind_assoc]
  split
  · next hread =>
    rw [h] at hread
    obtain ⟨⟨rfl⟩, rfl⟩ := Prod.mk.inj hread
    rfl
  · next hread => exact nomatch h.symm.trans hread
  · next hread => exact nomatch h.symm.trans hread

theorem evaluateForms_of_end (h : Datum.read setup.reading text = (.error .endOfInput, rest)) :
    evaluateForms setup last text = pure last := by
  rw [evaluateForms]
  split
  · next hread => exact nomatch h.symm.trans hread
  · rfl
  · next hend hread =>
    rw [h] at hread
    obtain ⟨⟨rfl⟩, rfl⟩ := Prod.mk.inj hread
    exact (hend rfl).elim

theorem evaluateForms_of_unreadable {fault : Fault}
    (h : Datum.read setup.reading text = (.error fault, rest)) (hend : fault ≠ .endOfInput) :
    evaluateForms setup last text = throw fault := by
  rw [evaluateForms]
  split
  · next hread => exact nomatch h.symm.trans hread
  · next hread =>
    rw [h] at hread
    obtain ⟨⟨rfl⟩, rfl⟩ := Prod.mk.inj hread
    exact absurd rfl hend
  · next hread =>
    rw [h] at hread
    obtain ⟨⟨rfl⟩, rfl⟩ := Prod.mk.inj hread
    rfl

end Forms

/-- Where the evaluation of a text stands: the last value, what is still to be read, the session. -/
structure Stage where
  last : Value
  text : Source
  session : Session

namespace Stage

def outcome (setup : Setup) (p : Stage) : EStateM.Result Fault Session Value :=
  evaluateForms setup p.last p.text p.session

inductive Step (setup : Setup) : Stage → Stage → Prop where
  | form {last v : Value} {text rest : Source} {s s' : Session} {d : Datum} :
      Datum.read setup.reading text = (.ok d, rest) →
      (accept setup d rest.line >>= evaluateValue setup) s = .ok v s' →
      Step setup ⟨last, text, s⟩ ⟨v, rest, s'⟩

/-- The next form cannot be read, or it fails. -/
inductive Fails (setup : Setup) : Stage → Fault → Session → Prop where
  | unreadable {last : Value} {text rest : Source} {s : Session} {fault : Fault} :
      Datum.read setup.reading text = (.error fault, rest) → fault ≠ .endOfInput →
      Fails setup ⟨last, text, s⟩ fault s
  | failing {last : Value} {text rest : Source} {s s' : Session} {d : Datum} {fault : Fault} :
      Datum.read setup.reading text = (.ok d, rest) →
      (accept setup d rest.line >>= evaluateValue setup) s = .error fault s' →
      Fails setup ⟨last, text, s⟩ fault s'

variable {p p' q q' : Stage} {fault : Fault} {t : Session}

theorem Step.outcome_eq (h : Step setup p q) : p.outcome setup = q.outcome setup := by
  obtain ⟨hread, hform⟩ := h
  rw [outcome, evaluateForms_of_read hread]
  exact bind_of_eq_ok hform

theorem Fails.outcome_eq (h : Fails setup p fault t) : p.outcome setup = .error fault t := by
  cases h with
  | unreadable hread hend =>
    rw [outcome, evaluateForms_of_unreadable hread hend]
    rfl
  | failing hread hform =>
    rw [outcome, evaluateForms_of_read hread]
    exact bind_of_eq_error hform

theorem outcome_of_blank (h : Grammar.Blank p.text.unread []) :
    p.outcome setup = .ok p.last p.session := by
  obtain ⟨rest, hread⟩ : ∃ rest, Datum.read setup.reading p.text = (.error .endOfInput, rest) :=
    Datum.resume_blank h
  rw [outcome, evaluateForms_of_end hread]
  rfl

theorem outcome_of_steps (h : ReflTransGen (Step setup) p q) :
    p.outcome setup = q.outcome setup := by
  induction h with
  | refl => rfl
  | tail _ hstep ih => rw [ih, hstep.outcome_eq]

theorem exists_end (setup : Setup) (p : Stage) : ∃ q, ReflTransGen (Step setup) p q ∧
    (Grammar.Blank q.text.unread [] ∨ ∃ fault t, Fails setup q fault t) := by
  induction hn : p.text.unread.length using Nat.strongRecOn generalizing p with
  | ind n ih =>
    obtain ⟨last, text, s⟩ := p
    rcases hread : Datum.read setup.reading text with ⟨fault | d, rest⟩
    · refine ⟨_, .refl, ?_⟩
      by_cases hend : fault = .endOfInput
      · exact .inl (Datum.blank_of_read (hend ▸ hread))
      · exact .inr ⟨fault, s, .unreadable hread hend⟩
    · cases hform : (accept setup d rest.line >>= evaluateValue setup) s with
      | ok v s' =>
        have hlt := Datum.length_unread_lt_of_read hread
        obtain ⟨q, hsteps, hend⟩ := ih _ (hn ▸ hlt) ⟨v, rest, s'⟩ rfl
        exact ⟨q, .head (.form hread hform) hsteps, hend⟩
      | error fault s' => exact ⟨_, .refl, .inr ⟨fault, s', .failing hread hform⟩⟩

theorem exists_of_outcome_eq_ok {v : Value} (h : p.outcome setup = .ok v t) :
    ∃ q, ReflTransGen (Step setup) p q ∧ Grammar.Blank q.text.unread [] ∧ q.last = v ∧
      q.session = t := by
  obtain ⟨q, hsteps, hblank | ⟨fault, t', hfails⟩⟩ := exists_end setup p
  · rw [outcome_of_steps hsteps, outcome_of_blank hblank] at h
    obtain ⟨hlast, hsession⟩ := EStateM.Result.ok.inj h
    exact ⟨q, hsteps, hblank, hlast, hsession⟩
  · rw [outcome_of_steps hsteps, hfails.outcome_eq] at h
    exact nomatch h

theorem exists_of_outcome_eq_error (h : p.outcome setup = .error fault t) :
    ∃ q, ReflTransGen (Step setup) p q ∧ Fails setup q fault t := by
  obtain ⟨q, hsteps, hblank | ⟨fault', t', hfails⟩⟩ := exists_end setup p
  · rw [outcome_of_steps hsteps, outcome_of_blank hblank] at h
    exact nomatch h
  · have heq := h
    rw [outcome_of_steps hsteps, hfails.outcome_eq] at heq
    obtain ⟨rfl, rfl⟩ := EStateM.Result.error.inj heq
    exact ⟨q, hsteps, hfails⟩

/-! ## More behind a newline -/

variable {b : List Char}

structure Extends (b : List Char) (p p' : Stage) : Prop where
  last : p'.last = p.last
  text : p.text.Extends b p'.text
  session : p'.session = p.session

theorem Step.extends (h : Step setup p q) (hp : p.Extends b p') :
    ∃ q', Step setup p' q' ∧ q.Extends b q' := by
  obtain ⟨hread, hform⟩ := h
  obtain ⟨last', text', s'⟩ := p'
  obtain ⟨rfl, htext, rfl⟩ := hp
  obtain ⟨rest', hread', hrest⟩ := Datum.read_of_extends htext hread
  rw [← hrest.line] at hform
  exact ⟨_, .form hread' hform, rfl, hrest, rfl⟩

theorem exists_extends (h : ReflTransGen (Step setup) p q) (hp : p.Extends b p') :
    ∃ q', ReflTransGen (Step setup) p' q' ∧ q.Extends b q' := by
  induction h with
  | refl => exact ⟨p', .refl, hp⟩
  | tail _ hstep ih =>
    obtain ⟨r', hsteps, hr⟩ := ih
    obtain ⟨q', hstep', hq⟩ := hstep.extends hr
    exact ⟨q', hsteps.tail hstep', hq⟩

theorem line_of_steps (h : ReflTransGen (Step setup) p q) :
    q.text.line + q.text.unread.count '\n' = p.text.line + p.text.unread.count '\n' := by
  induction h with
  | refl => rfl
  | tail _ hstep ih =>
    obtain ⟨hread, -⟩ := hstep
    exact (Datum.advancesTo_of_read hread).lines.trans ih

theorem outcome_of_extends_blank (hp : p.Extends b p') (hblank : Grammar.Blank p.text.unread []) :
    p'.outcome setup =
      outcome setup ⟨p.last, ⟨none, b, p.text.line + p.text.unread.count '\n' + 1⟩, p.session⟩ := by
  obtain ⟨last', text', s'⟩ := p'
  obtain ⟨rfl, htext, rfl⟩ := hp
  rw [outcome, outcome, evaluateForms, evaluateForms, Datum.read_of_extends_blank htext hblank]

/-! ## Later lines -/

/-- The text is the same with its lines numbered `k` higher; what the journals tell is as well. -/
structure Later (k : Int) (base : List Entry) (p p' : Stage) : Prop where
  text : p'.text = p.text.shift k
  session : Like (Tells k base) p.session p'.session

theorem Step.later (h : Step setup p q) (hp : p.Later k base p') :
    ∃ q', Step setup p' q' ∧ q.Later k base q' ∧ q'.last = q.last := by
  obtain @⟨last, v, text, rest, s, s₁, d, hread, hform⟩ := h
  obtain ⟨last', text', s'⟩ := p'
  obtain ⟨rfl, hsession⟩ := hp
  obtain ⟨t', hform', ht⟩ :=
    (tracks_laterForm setup k base d rest.line).of_eq_ok hsession hform
  have hread' : Datum.read setup.reading (text.shift k) = (.ok d, rest.shift k) :=
    Datum.read_shift_of_eq k hread
  exact ⟨⟨v, rest.shift k, t'⟩, .form hread' hform', ⟨rfl, ht⟩, rfl⟩

theorem exists_later (h : ReflTransGen (Step setup) p q) (hp : p.Later k base p') :
    ∃ q', ReflTransGen (Step setup) p' q' ∧ q.Later k base q' ∧
      (p = q ∧ p' = q' ∨ q'.last = q.last) := by
  induction h with
  | refl => exact ⟨p', .refl, hp, .inl ⟨rfl, rfl⟩⟩
  | tail _ hstep ih =>
    obtain ⟨r', hsteps, hr, -⟩ := ih
    obtain ⟨q', hstep', hq, hlast⟩ := hstep.later hr
    exact ⟨q', hsteps.tail hstep', hq, .inr hlast⟩

theorem Fails.later (h : Fails setup p fault t) (hp : p.Later k base p') :
    ∃ t', Fails setup p' (fault.shift k) t' ∧ Like (Tells k base) t t' := by
  obtain ⟨last', text', s'⟩ := p'
  obtain ⟨rfl, hsession⟩ := hp
  cases h with
  | @unreadable _ text rest s fault hread hend =>
    have hread' : Datum.read setup.reading (text.shift k) =
        (.error (fault.shift k), rest.shift k) := Datum.read_shift_of_eq k hread
    refine ⟨s', .unreadable hread' ?_, hsession⟩
    cases fault with
    | endOfInput => exact absurd rfl hend
    | _ => exact nofun
  | @failing _ text rest s s₁ d fault hread hform =>
    obtain ⟨t', hform', ht⟩ :=
      (tracks_laterForm setup k base d rest.line).of_eq_error hsession hform id
    have hfails : (accept setup d rest.line >>= evaluateValue setup).FailsOnly
        Fault.OfEvaluation :=
      Turn.FailsOnly.bind (failsOnly_accept setup d rest.line) fun expr =>
        failsOnly_evaluateValue setup expr
    have hfault : fault.OfEvaluation := hfails s fault t hform
    have hshift : fault.shift k = fault := by
      cases fault with
      | malformed line cause => exact absurd rfl (hfault.ne_malformed line cause)
      | _ => rfl
    have hread' : Datum.read setup.reading (text.shift k) = (.ok d, rest.shift k) :=
      Datum.read_shift_of_eq k hread
    exact ⟨t', hshift.symm ▸ .failing hread' hform', ht⟩

theorem eq_of_steps_of_blank (h : ReflTransGen (Step setup) p q)
    (hblank : Grammar.Blank p.text.unread []) : q = p := by
  rcases h.cases_head with rfl | ⟨r, hstep, -⟩
  · rfl
  · obtain ⟨rest, hend⟩ : ∃ rest, Datum.read setup.reading p.text = (.error .endOfInput, rest) :=
      Datum.resume_blank hblank
    obtain ⟨hread, -⟩ := hstep
    exact nomatch hend.symm.trans hread

/-- Where one evaluation ends well, so does one that has the lines numbered differently, and with
the value of the last form if there is one. -/
theorem Later.of_outcome_eq_ok {w : Value} (hp : p.Later k base p')
    (h : p.outcome setup = .ok w t) : ∃ w' t', p'.outcome setup = .ok w' t' ∧
      Like (Tells k base) t t' ∧
      (Grammar.Blank p.text.unread [] → w = p.last ∧ w' = p'.last) ∧
      (¬ Grammar.Blank p.text.unread [] → w' = w) := by
  obtain ⟨q, hsteps, hblank, rfl, rfl⟩ := exists_of_outcome_eq_ok h
  obtain ⟨q', hsteps', hq, hlast⟩ := exists_later hsteps hp
  have hblank' : Grammar.Blank q'.text.unread [] := by
    rw [hq.text]
    exact hblank
  refine ⟨q'.last, q'.session, ?_, hq.session, ?_, ?_⟩
  · rw [outcome_of_steps hsteps', outcome_of_blank hblank']
  · intro hnone
    have hnone' : Grammar.Blank p'.text.unread [] := by
      rw [hp.text]
      exact hnone
    rw [eq_of_steps_of_blank hsteps hnone, eq_of_steps_of_blank hsteps' hnone']
    exact ⟨rfl, rfl⟩
  · intro hsome
    rcases hlast with ⟨rfl, -⟩ | hlast
    · exact absurd hblank hsome
    · exact hlast

theorem Later.of_outcome_eq_error (hp : p.Later k base p') (h : p.outcome setup = .error fault t) :
    ∃ t', p'.outcome setup = .error (fault.shift k) t' ∧ Like (Tells k base) t t' := by
  obtain ⟨q, hsteps, hfails⟩ := exists_of_outcome_eq_error h
  obtain ⟨q', hsteps', hq, -⟩ := exists_later hsteps hp
  obtain ⟨t', hfails', ht⟩ := hfails.later hq
  exact ⟨t', by rw [outcome_of_steps hsteps', hfails'.outcome_eq], ht⟩

end Stage

end Session

open Session

/-- The text behind a newline is evaluated from where the evaluation of the first text ended. -/
theorem outcome_append {setup : Setup} {a : String} {s s₁ : Session} {v : Value}
    (ha : evaluateText setup a s = .ok v s₁) (b : String) :
    evaluateText setup (a ++ "\n" ++ b) s = Stage.outcome setup
      ⟨v, (Source.ofString b).shift (1 + a.toList.count '\n'), s₁⟩ := by
  obtain ⟨q, hsteps, hblank, rfl, rfl⟩ :=
    Stage.exists_of_outcome_eq_ok (p := ⟨.nil, .ofString a, s⟩) ha
  have hextends : Stage.Extends b.toList ⟨.nil, .ofString a, s⟩
      ⟨.nil, .ofString (a ++ "\n" ++ b), s⟩ := by
    refine ⟨rfl, ⟨?_, rfl⟩, rfl⟩
    simp [Source.ofString]
  obtain ⟨q', hsteps', hq⟩ := Stage.exists_extends hsteps hextends
  have hline : q.text.line + q.text.unread.count '\n' + 1 = 1 + (1 + a.toList.count '\n') := by
    have hcount : q.text.line + q.text.unread.count '\n' = 1 + a.toList.count '\n' :=
      Stage.line_of_steps hsteps
    omega
  have hjoin := (Stage.outcome_of_steps hsteps').trans (Stage.outcome_of_extends_blank hq hblank)
  rw [hline] at hjoin
  exact hjoin

/-- Once a text has been evaluated, the same text with more behind a newline comes to evaluating
what is behind it: everything done is the same, and so is the value, which is the earlier one if
there is no form. Only the lines that are told are higher, by those of the first text. What was
done before a form fails remains done. -/
theorem evaluateText_append {setup : Setup} {a b : String} {s s₁ : Session} {v : Value}
    (ha : evaluateText setup a s = .ok v s₁) :
    let k : Int := 1 + a.toList.count '\n'
    (∀ w t, evaluateText setup b s₁ = .ok w t →
      ∃ w' t', evaluateText setup (a ++ "\n" ++ b) s = .ok w' t' ∧
        Like (Tells k s₁.journal) t t' ∧
        (Grammar.Blank b.toList [] → w = .nil ∧ w' = v) ∧
        (¬ Grammar.Blank b.toList [] → w' = w)) ∧
    ∀ fault t, evaluateText setup b s₁ = .error fault t →
      (∃ t', evaluateText setup (a ++ "\n" ++ b) s = .error (fault.shift k) t' ∧
        Like (Tells k s₁.journal) t t') ∧
      ∃ q, ReflTransGen (Stage.Step setup) ⟨.nil, .ofString b, s₁⟩ q ∧
        q.Fails setup fault t := by
  intro k
  have hlater : Stage.Later k s₁.journal ⟨.nil, .ofString b, s₁⟩
      ⟨v, (Source.ofString b).shift k, s₁⟩ := ⟨rfl, rfl, rfl, [], rfl, rfl⟩
  rw [outcome_append ha b]
  constructor
  · intro w t hb
    exact hlater.of_outcome_eq_ok hb
  · intro fault t hb
    exact ⟨hlater.of_outcome_eq_error hb, Stage.exists_of_outcome_eq_error hb⟩

/-- The comment ends at the newline, and the stray parenthesis is found two lines further on. -/
theorem evaluateText_append_comment :
    let setup : Setup := ⟨.plain, 1000, false⟩
    let s : Session := ⟨⟨.empty, .ofString "", ""⟩, 0, []⟩
    ∃ s₁, evaluateText setup "'p\n;c" s = .ok (.symbol "p") s₁ ∧
      (∃ t, evaluateText setup "'q )" s₁ = .error (.malformed 1 .unmatchedClose) t) ∧
      ∃ t', evaluateText setup ("'p\n;c" ++ "\n" ++ "'q )") s =
        .error (.malformed 3 .unmatchedClose) t' := by
  intro setup s
  let session (n : Nat) : Session := ⟨⟨{ Store.empty with nextId := n }, .ofString "", ""⟩, 0, []⟩
  have hread : Datum.read setup.reading (.ofString "'p\n;c") =
      (.ok (.list [.symbol "quote", .symbol "p"]), ⟨some '\n', [';', 'c'], 1⟩) := by
    cbv
  have hp : Stage.Step setup ⟨.nil, .ofString "'p\n;c", s⟩
      ⟨.symbol "p", ⟨some '\n', [';', 'c'], 1⟩, session 2⟩ := .form hread (by cbv)
  have hcomment : Grammar.Blank ['\n', ';', 'c'] [] :=
    .space (by decide) (@Grammar.Blank.lastComment ['c'] (by decide))
  have ha : evaluateText setup "'p\n;c" s = .ok (.symbol "p") (session 2) :=
    hp.outcome_eq.trans (Stage.outcome_of_blank hcomment)
  have hread' : Datum.read setup.reading (.ofString "'q )") =
      (.ok (.list [.symbol "quote", .symbol "q"]), ⟨some ' ', [')'], 1⟩) := by
    cbv
  have hq : Stage.Step setup ⟨.nil, .ofString "'q )", session 2⟩
      ⟨.symbol "q", ⟨some ' ', [')'], 1⟩, session 4⟩ := .form hread' (by cbv)
  have hclose : Datum.read setup.reading ⟨some ' ', [')'], 1⟩ =
      (.error (.malformed 1 .unmatchedClose), ⟨none, [], 1⟩) := by
    cbv
  have hfails : Stage.Fails setup ⟨.symbol "q", ⟨some ' ', [')'], 1⟩, session 4⟩
      (.malformed 1 .unmatchedClose) (session 4) := .unreadable hclose (by decide)
  have hb : evaluateText setup "'q )" (session 2) =
      .error (.malformed 1 .unmatchedClose) (session 4) := hq.outcome_eq.trans hfails.outcome_eq
  obtain ⟨⟨t', ht', -⟩, -⟩ := (evaluateText_append ha).2 _ _ hb
  exact ⟨session 2, ha, ⟨session 4, hb⟩, t', ht'⟩

end Keel
