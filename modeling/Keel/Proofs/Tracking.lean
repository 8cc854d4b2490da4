import Keel.Proofs.Coupling.Evaluation

/-! # Actions that track one another

An action tracks another one if it does the same wherever the other one succeeds.
Where the other one fails it may depart from it, as far as it is allowed to. So
the two are coupled, and they run from the same machine. If one evaluator tracks
another, then evaluation by means of it tracks evaluation by means of the other.
-/

namespace Keel

/-- What is allowed where the action that is tracked fails: to fail in a certain way, or not to. -/
abbrev Departure := Fault → Machine → Option (Fault × Machine) → Prop

/-- It is allowed to fail in the same way, and one that does not fail may go on in any way. -/
structure Departure.Closed (R : Departure) : Prop where
  same : ∀ {fault m}, R fault m (some (fault, m))
  onward : ∀ {fault m e}, R fault m none → R fault m e

/-- The action `b` does what `a` does and departs from it only where `a` fails. -/
def Tracks {α : Type} (R : Departure) (a b : Action α) : Prop :=
  ∀ m, match a m with
    | .ok v m' => b m = .ok v m'
    | .error fault m' => R fault m' (failureOf (b m))

section Outcomes

variable {R : Departure} {α : Type} {a b : Action α} {m m' : Machine}

theorem Tracks.of_eq_ok {v : α} (h : Tracks R a b) (ha : a m = .ok v m') : b m = .ok v m' := by
  have hm := h m
  rwa [ha] at hm

theorem Tracks.of_eq_error {fault : Fault} (h : Tracks R a b) (ha : a m = .error fault m') :
    R fault m' (failureOf (b m)) := by
  have hm := h m
  rwa [ha] at hm

end Outcomes

/-- Failures of one sort end the comparison; any other failure is a failure in the same way. -/
def Departure.after (P : Fault → Machine → Prop) : Departure := fun fault m e =>
  P fault m ∨ e = some (fault, m)

theorem Departure.closed_after {P : Fault → Machine → Prop} : (Departure.after P).Closed where
  same := .inr rfl
  onward := by
    rintro fault m e (hfault | hnone)
    · exact .inl hfault
    · exact nomatch hnone

theorem Tracks.eq_of_after {P : Fault → Machine → Prop} {α : Type} {a b : Action α} {m : Machine}
    (h : Tracks (Departure.after P) a b) (hP : ∀ fault m', a m = .error fault m' → ¬ P fault m') :
    b m = a m := by
  cases ha : a m with
  | ok v m' => exact h.of_eq_ok ha
  | error fault m' =>
    have hfails := (h.of_eq_error ha).resolve_left (hP fault m' ha)
    cases hb : b m with
    | ok v m'' =>
      rw [hb] at hfails
      exact nomatch hfails
    | error fault' m'' =>
      rw [hb] at hfails
      obtain ⟨rfl, rfl⟩ := Prod.mk.inj (Option.some.inj hfails)
      rfl

def EvaluatorTracks (R : Departure) (ev ev' : Evaluator) : Prop :=
  ∀ f expr, Tracks R (ev f expr) (ev' f expr)

def Departure.coupling (R : Departure) : Coupling Machine where
  Related := Eq
  Lost _ := False
  Departs := R

theorem tracks_iff_couples {R : Departure} {α : Type} {a b : Action α} :
    Tracks R a b ↔ R.coupling.Couples a b := by
  constructor
  · intro h
    refine ⟨False.elim, ?_⟩
    rintro m _ rfl
    have hm := h m
    unfold Coupling.Agrees
    cases ham : a m with
    | ok v m' =>
      rw [ham] at hm
      exact .inr ⟨m', hm, rfl⟩
    | error fault m' =>
      rw [ham] at hm
      exact hm
  · intro h m
    have hm := h.agrees (s := m) rfl
    cases ham : a m with
    | ok v m' =>
      rw [ham] at hm
      rcases hm with hlost | ⟨_, hb, rfl⟩
      · exact hlost.elim
      · exact hb
    | error fault m' =>
      rw [ham] at hm
      exact hm

theorem EvaluatorTracks.couples {R : Departure} {ev ev' : Evaluator} (h : EvaluatorTracks R ev ev') :
    EvaluatorCouples R.coupling ev ev' := fun f expr =>
  tracks_iff_couples.1 (h f expr)

namespace Departure.Closed

variable {R : Departure} {α : Type} (h : R.Closed)
include h

theorem refl (a : Action α) : Tracks R a a := by
  intro m
  cases a m with
  | ok v m' => rfl
  | error fault m' => exact h.same

theorem sameStore : R.coupling.SameStore where
  same := by
    rintro fault m _ rfl
    exact h.same
  lost := False.elim
  onward := h.onward
  store := by
    rintro m _ rfl
    rfl
  update := by
    rintro m _ s rfl
    rfl
  lost_update := id

theorem lawful (style : Style) (limit : Nat) : R.coupling.Lawful style limit limit :=
  h.sameStore.lawful (tracks_iff_couples.1 (h.refl _)) fun _ => tracks_iff_couples.1 (h.refl _)

variable {ev ev' : Evaluator} (hev : EvaluatorTracks R ev ev')
include hev

theorem initialise (f : FrameId) (cells : List CellId) (bindings : List (String × Value)) :
    Tracks R (Form.initialise ev f cells bindings) (Form.initialise ev' f cells bindings) :=
  tracks_iff_couples.2 ((h.lawful .plain 0).initialise hev.couples f cells bindings)

theorem step (style : Style) (limit : Nat) :
    EvaluatorTracks R (Keel.step style limit ev) (Keel.step style limit ev') := fun f expr =>
  tracks_iff_couples.2 ((h.lawful style limit).step hev.couples f expr)

end Departure.Closed

end Keel
