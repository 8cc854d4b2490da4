import Keel.Proofs.Tracking
import Keel.Session.Basic

/-! # Coupled sessions

Sessions on machines that are coupled go on together, as long as they evaluate in
the same frame and what they tell belongs together. So taking over a datum and
evaluating it are coupled if evaluation is.
-/

namespace Keel

namespace Session

variable {α β : Type}

theorem perform_map (f : α → β) (a : Action α) : perform (f <$> a) = f <$> perform a := by
  funext s
  show perform (EStateM.map f a) s = EStateM.map f (perform a) s
  cases ham : a s.machine with
  | ok v m => simp only [perform, EStateM.map, ham]
  | error fault m => simp only [perform, EStateM.map, ham]

end Session

namespace Coupling

variable {C : Coupling Machine} {J : List Entry → List Entry → Prop} {α : Type}

/-- Sessions with coupled machines and the same frame of the basis, whose journals are related. -/
def onSessions (C : Coupling Machine) (J : List Entry → List Entry → Prop) : Coupling Session where
  Related s s' := C.Related s.machine s'.machine ∧ s'.root = s.root ∧ J s.journal s'.journal
  Lost s := C.Lost s.machine
  Departs fault s e := (∀ e', C.Departs fault s.machine e') ∨ ∃ fault' s', e = some (fault', s') ∧
    C.Departs fault s.machine (some (fault', s'.machine)) ∧ s'.root = s.root ∧
      J s.journal s'.journal

theorem Closed.onSessions (h : C.Closed) : (C.onSessions J).Closed where
  same hs := .inr ⟨_, _, rfl, h.same hs.1, hs.2⟩
  lost hs := .inl fun _ => h.lost hs
  onward := by
    rintro fault s e (hany | ⟨fault', s', hnone, -⟩)
    · exact .inl hany
    · exact nomatch hnone

def session (Related : Machine → Machine → Prop) (Lost : Machine → Prop)
    (J : List Entry → List Entry → Prop) : Coupling Session :=
  strict (fun s s' => Related s.machine s'.machine ∧ s'.root = s.root ∧ J s.journal s'.journal)
    (Lost ·.machine)

theorem session_eq (Related : Machine → Machine → Prop) (Lost : Machine → Prop)
    (J : List Entry → List Entry → Prop) :
    session Related Lost J = (strict Related Lost).onSessions J := by
  refine congrArg (Coupling.mk _ _) (funext fun fault => funext fun s => funext fun e => ?_)
  refine propext ⟨?_, ?_⟩
  · rintro (hlost | ⟨s', rfl, hmachine, hroot, hjournal⟩)
    · exact .inl fun _ => .inl hlost
    · exact .inr ⟨fault, s', rfl, .inr ⟨s'.machine, rfl, hmachine⟩, hroot, hjournal⟩
  · rintro (hany | ⟨fault', s', rfl, hlost | ⟨m, heq, hmachine⟩, hroot, hjournal⟩)
    · rcases hany none with hlost | ⟨_, hnone, -⟩
      · exact .inl hlost
      · exact nomatch hnone
    · exact .inl hlost
    · obtain ⟨rfl, rfl⟩ := Prod.mk.inj (Option.some.inj heq)
      exact .inr ⟨s', rfl, hmachine, hroot, hjournal⟩

theorem Closed.couples_perform (hC : C.Closed) {a b : Action α} (h : C.Couples a b) :
    (C.onSessions J).Couples (Session.perform a) (Session.perform b) where
  adrift {s} hs := by
    have hadrift := h.adrift hs
    cases ham : a s.machine with
    | ok v m =>
      rw [ham] at hadrift
      rw [Session.perform_of_eq_ok ham]
      exact hadrift
    | error fault m =>
      rw [ham] at hadrift
      rw [Session.perform_of_eq_error ham]
      exact fun _ => .inl hadrift
  agrees {s s'} hs := by
    obtain ⟨hmachine, hroot, hjournal⟩ := hs
    have hagrees := h.agrees hmachine
    cases ham : a s.machine with
    | ok v m =>
      rw [ham] at hagrees
      rw [Session.perform_of_eq_ok ham]
      rcases hagrees with hlost | ⟨n, hbn, hmn⟩
      · exact .inl hlost
      · exact .inr ⟨{ s' with machine := n }, Session.perform_of_eq_ok hbn, hmn, hroot, hjournal⟩
    | error fault m =>
      rw [ham] at hagrees
      rw [Session.perform_of_eq_error ham]
      cases hbn : b s'.machine with
      | ok w n =>
        rw [hbn] at hagrees
        exact .inl fun _ => hC.onward hagrees
      | error fault' n =>
        rw [hbn] at hagrees
        rw [Session.perform_of_eq_error hbn]
        exact .inr ⟨fault', { s' with machine := n }, rfl, hagrees, hroot, hjournal⟩

theorem couples_enter {e e' : Entry} (hJ : ∀ {j j'}, J j j' → J (e :: j) (e' :: j')) :
    (C.onSessions J).Couples (Session.enter e) (Session.enter e') where
  adrift hs := hs
  agrees {_ s'} hs := .inr ⟨{ s' with journal := e' :: s'.journal }, rfl, hs.1, hs.2.1, hJ hs.2.2⟩

theorem couples_root {k l : FrameId → Turn α}
    (hkl : ∀ root, (C.onSessions J).Couples (k root) (l root)) :
    (C.onSessions J).Couples (fun s => k s.root s) (fun s => l s.root s) where
  adrift hs := (hkl _).adrift hs
  agrees hs := by
    have hroot := hs.2.1
    simp only [hroot]
    exact (hkl _).agrees hs

variable {setup : Setup} {limit' : Nat}

/-- Records that are made from the same are told, each session telling its own. -/
theorem Closed.couples_record (hC : C.Closed) (setup : Setup) (limit' : Nat)
    {x y : Store → Except Fault α} {f g : α → Record}
    (h : C.Couples (Action.inspecting fun s => unlessTooLong (x s))
      (Action.inspecting fun s => unlessTooLong (y s)))
    (hJ : ∀ v {j j'}, J j j' → J (.logged (f v) :: j) (.logged (g v) :: j')) :
    (C.onSessions J).Couples (Session.record setup fun s => f <$> x s)
      (Session.record { setup with limit := limit' } fun s => g <$> y s) := by
  unfold Session.record
  split
  · simp only [unlessTooLong_map, Action.inspecting_map, Session.perform_map, bind_map_left]
    refine hC.onSessions.bind (hC.couples_perform h) fun v => ?_
    cases v with
    | none => exact couples_pure ()
    | some v => exact couples_enter (hJ v)
  · exact couples_pure ()

namespace Lawful

variable (h : C.Lawful setup.style setup.inspecting { setup with limit := limit' }.inspecting)
include h

theorem couples_accept (d : Datum) {line line' : Int}
    (hJ : ∀ text {j j'}, J j j' →
      J (.logged (.read text line) :: j) (.logged (.read text line') :: j')) :
    (C.onSessions J).Couples (Session.accept setup d line)
      (Session.accept { setup with limit := limit' } d line') := by
  have hclosed : (C.onSessions J).Closed := h.toClosed.onSessions
  refine hclosed.bind (h.couples_perform (h.updating _)) fun expr => ?_
  exact hclosed.bind (h.couples_record setup limit' (h.told expr) hJ) fun _ => couples_pure expr

theorem couples_evaluateValue
    (hev : EvaluatorCouples C (Keel.evaluate setup.style setup.evaluating)
      (Keel.evaluate setup.style { setup with limit := limit' }.evaluating))
    (hJ : ∀ text text' {j j'}, J j j' →
      J (.logged (.evaluated text text') :: j) (.logged (.evaluated text text') :: j'))
    (expr : Value) :
    (C.onSessions J).Couples (Session.evaluateValue setup expr)
      (Session.evaluateValue { setup with limit := limit' } expr) := by
  have hclosed : (C.onSessions J).Closed := h.toClosed.onSessions
  have htold : ∀ v, (C.onSessions J).Couples
      (Session.record setup fun s => do
        return .evaluated (← s.inspect setup.inspecting expr) (← s.inspect setup.inspecting v))
      (Session.record { setup with limit := limit' } fun s => do
        let inspecting := { setup with limit := limit' }.inspecting
        return .evaluated (← s.inspect inspecting expr) (← s.inspect inspecting v)) := by
    intro v
    have hlog := h.couples_record (J := J) (f := fun p => .evaluated p.1 p.2)
      (g := fun p => .evaluated p.1 p.2) setup limit' (h.toldBoth expr v) fun p => hJ p.1 p.2
    simpa only [map_bind, map_pure] using hlog
  have hroot : ∀ root, (C.onSessions J).Couples _ _ := fun root =>
    hclosed.bind (h.couples_perform (hev root expr)) fun v =>
      hclosed.bind (htold v) fun _ => couples_pure v
  exact couples_root hroot

end Lawful

/-- With one limit for both runs, sessions take over a datum and evaluate it together. -/
theorem couples_form {Related : Machine → Machine → Prop} {Lost : Machine → Prop}
    (h : ∀ limit, (strict Related Lost).Lawful setup.style limit limit)
    (hJ : ∀ e {j j'}, J j j' → J (e :: j) (e :: j')) (d : Datum) (line : Int) :
    (session Related Lost J).Couples (Session.accept setup d line >>= Session.evaluateValue setup)
      (Session.accept setup d line >>= Session.evaluateValue setup) := by
  have hinspecting : (strict Related Lost).Lawful setup.style setup.inspecting
      { setup with limit := setup.limit }.inspecting := h setup.inspecting
  rw [session_eq]
  exact closed_strict.onSessions.bind (hinspecting.couples_accept d fun _ => hJ _)
    (hinspecting.couples_evaluateValue (Lawful.evaluate h setup.evaluating) fun _ _ => hJ _)

end Coupling

/-! ## Sessions that track one another -/

section Tracking

variable {P : Fault → Prop} {J : List Entry → List Entry → Prop} {α : Type} {a b : Turn α}
  {s s' t : Session}

/-- Sessions that differ in their journals only, as far as these may. -/
structure Session.Like (J : List Entry → List Entry → Prop) (s s' : Session) : Prop where
  machine : s'.machine = s.machine
  root : s'.root = s.root
  journal : J s.journal s'.journal

theorem Session.Like.eq (h : Session.Like (fun j j' => j' = j) s s') : s' = s := by
  obtain ⟨machine, root, journal⟩ := s'
  obtain ⟨rfl, rfl, rfl⟩ := h
  rfl

/-- The turn goes on as the other one does, from a session that is like the other's. -/
def TurnTracks (P : Fault → Prop) (J : List Entry → List Entry → Prop) (a b : Turn α) : Prop :=
  ((Departure.after fun fault _ => P fault).coupling.onSessions J).Couples a b

theorem Session.Like.related (hs : Session.Like J s s') :
    ((Departure.after fun fault _ => P fault).coupling.onSessions J).Related s s' :=
  ⟨hs.machine.symm, hs.root, hs.journal⟩

namespace TurnTracks

theorem of_eq_ok {v : α} (h : TurnTracks P J a b) (hs : Session.Like J s s') (ha : a s = .ok v t) :
    ∃ t', b s' = .ok v t' ∧ Session.Like J t t' := by
  have hagrees := h.agrees (hs.related (P := P))
  rw [ha] at hagrees
  obtain ⟨t', hb, hmachine, hroot, hjournal⟩ := hagrees.resolve_left id
  exact ⟨t', hb, hmachine.symm, hroot, hjournal⟩

theorem of_eq_error {fault : Fault} (h : TurnTracks P J a b) (hs : Session.Like J s s')
    (ha : a s = .error fault t) (hP : ¬ P fault) :
    ∃ t', b s' = .error fault t' ∧ Session.Like J t t' := by
  have hagrees := h.agrees (hs.related (P := P))
  rw [ha] at hagrees
  rcases hagrees with hany | ⟨fault', t', hb, hfails, hroot, hjournal⟩
  · exact nomatch (hany none).resolve_left hP
  · obtain ⟨rfl, hmachine⟩ := Prod.mk.inj (Option.some.inj (hfails.resolve_left hP))
    exact ⟨t', eq_error_of_failureOf hb, hmachine, hroot, hjournal⟩

theorem eq_of_after (h : TurnTracks P (fun j j' => j' = j) a b)
    (hP : ∀ fault t, a s = .error fault t → ¬ P fault) : b s = a s := by
  have hs : Session.Like (fun j j' => j' = j) s s := ⟨rfl, rfl, rfl⟩
  cases ha : a s with
  | ok v t =>
    obtain ⟨t', hb, ht⟩ := h.of_eq_ok hs ha
    rw [hb, ht.eq]
  | error fault t =>
    obtain ⟨t', hb, ht⟩ := h.of_eq_error hs ha (hP fault t ha)
    rw [hb, ht.eq]

end TurnTracks

end Tracking

end Keel
