import Keel.Proofs.Coupling.Session
import Keel.Proofs.Simulation.Basic
import Keel.Session.Loop

/-! # What has been written before

Output is only ever added to. So what a session does does not depend on what it
has written before, and one that has written more before goes on like any other.
-/

namespace Keel

/-- The machine on which something else has been written before. -/
def Machine.prefixed (text : String) (m : Machine) : Machine :=
  { m with output := text ++ m.output }

namespace Coupling

variable {σ α : Type} {Related : σ → σ → Prop}

/-- Unless the first run has got lost, both end in the same way. -/
theorem Agrees.sameOutcome {Lost : σ → Prop} {result result' : EStateM.Result Fault σ α}
    (h : (strict Related Lost).Agrees result result')
    (hfound : ¬ (strict Related Lost).Adrift result) :
    SameOutcome Eq Related result result' := by
  cases result with
  | ok v s =>
    obtain ⟨s', rfl, hs⟩ := h.resolve_left hfound
    exact .ok rfl hs
  | error fault s =>
    obtain ⟨s', hfails, hs⟩ := h.resolve_left fun hlost => hfound fun _ => .inl hlost
    rw [eq_error_of_failureOf hfails]
    exact .error hs

/-- Where nothing gets lost, coupled computations end in the same way. -/
theorem Couples.sameOutcome {a b : EStateM Fault σ α}
    (h : (strict Related fun _ => False).Couples a b) {s s' : σ} (hs : Related s s') :
    SameOutcome Eq Related (a s) (b s') := by
  refine (h.agrees hs).sameOutcome ?_
  cases a s with
  | ok v t => exact id
  | error fault t => exact Adrift.lost

abbrev prefixing (text : String) : Coupling Machine :=
  strict (fun m n => n = m.prefixed text) fun _ => False

namespace prefixing

variable {text : String}

theorem sameStore : (prefixing text).SameStore where
  toClosed := closed_strict
  store := by
    rintro m _ rfl
    rfl
  update := by
    rintro m _ s rfl
    rfl
  lost_update := id

theorem lawful (style : Style) (limit : Nat) : (prefixing text).Lawful style limit limit := by
  refine sameStore.lawful ⟨False.elim, ?_⟩ fun written => ⟨False.elim, ?_⟩
  · rintro m _ rfl
    exact .inr ⟨_, rfl, rfl⟩
  · rintro m _ rfl
    refine .inr ⟨_, rfl, ?_⟩
    show Machine.mk _ _ (text ++ m.output ++ written) = Machine.mk _ _ (text ++ (m.output ++ written))
    rw [String.append_assoc]

end prefixing

end Coupling

namespace Session

def prefixed (text : String) (s : Session) : Session :=
  { s with machine := s.machine.prefixed text }

abbrev prefixing (text : String) : Coupling Session :=
  Coupling.session (fun m n => n = m.prefixed text) (fun _ => False) fun j j' => j' = j

variable {text : String} {s s' : Session} {setup : Setup} {α : Type}

theorem related_prefixing_iff : (prefixing text).Related s s' ↔ s' = s.prefixed text := by
  constructor
  · obtain ⟨m, root, journal⟩ := s'
    rintro ⟨rfl, rfl, rfl⟩
    rfl
  · rintro rfl
    exact ⟨rfl, rfl, rfl⟩

theorem sameOutcome_prefixed {a b : Turn α} (h : (prefixing text).Couples a b) (s : Session) :
    SameOutcome Eq (fun t t' => t' = t.prefixed text) (a s) (b (s.prefixed text)) :=
  (h.sameOutcome (related_prefixing_iff.2 rfl)).imp (fun _ _ hv => hv)
    fun _ _ ht => related_prefixing_iff.1 ht

theorem evaluateOne_prefixed (setup : Setup) (text : String) (s : Session) :
    SameOutcome Eq (fun t t' => t' = t.prefixed text) (evaluateOne setup s)
      (evaluateOne setup (s.prefixed text)) := by
  have hsource : (s.prefixed text).machine.source = s.machine.source := rfl
  rw [evaluateOne_eq, evaluateOne_eq, hsource]
  rcases Datum.read setup.reading s.machine.source with ⟨fault | d, source⟩
  · exact .error rfl
  · refine sameOutcome_prefixed (Coupling.couples_form (Coupling.prefixing.lawful _) ?_ d _) _
    exact fun e _ _ hj => congrArg (e :: ·) hj

end Session

end Keel
