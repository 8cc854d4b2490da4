import Mathlib.Logic.Relation
import Keel.Proofs.Discipline.Starts
import Keel.Proofs.Growth.Session
import Keel.Proofs.Identity.Basic
import Keel.Proofs.Identity.Evaluation
import Keel.Proofs.Parameters

/-! # Identity in sessions

A session keeps heaps in whatever it is asked for, also where that fails, and each
evaluation that it starts is known to a heap. So at every moment of a session one
heap holds all values in the store and all values in hand: pairs of one identity
are the same pair, and a pair that is newly made is not identical to any of them.
-/

namespace Keel

instance : Storing Session := ⟨(·.machine.store)⟩

namespace Heap

open Session

variable {h : Heap} {α : Type} {setup : Setup} {s s' : Session} {e : Evaluation}

/-! ## Turns -/

theorem keeps_perform {a : Action α} {post : Heap → α → Prop} (ha : h.Keeps a post) :
    h.Keeps (perform a) post := by
  intro s hs
  cases has : a s.machine with
  | ok v m =>
    obtain ⟨h', hh, hm, hv⟩ := (ha s.machine hs).of_eq_ok has
    refine ⟨h', hh, ?_⟩
    rw [perform_of_eq_ok has]
    exact ⟨hm, hv⟩
  | error fault m =>
    obtain ⟨h', hh, hm⟩ := (ha s.machine hs).of_eq_error has
    refine ⟨h', hh, ?_⟩
    rw [perform_of_eq_error has]
    exact hm

theorem keeps_moving (next : Source → Source) :
    h.Keeps (perform (modify fun m => { m with source := next m.source })) fun _ _ => True :=
  keeps_perform fun _ hm => ⟨h, .refl h, hm, trivial⟩

theorem keeps_enter (entry : Entry) : h.Keeps (enter entry) fun _ _ => True :=
  fun _ hs => ⟨h, .refl h, hs, trivial⟩

theorem keeps_sessionWrite (text : String) : h.Keeps (Session.write text) fun _ _ => True :=
  keeps_perform (keeps_write text)

theorem keeps_record (r : Store → Except Fault Record) :
    h.Keeps (record setup r) fun _ _ => True := by
  unfold record
  split
  · refine (keeps_perform keeps_looking).bind fun _ _ told _ => ?_
    cases told with
    | none => exact keeps_pure trivial
    | some told => exact keeps_enter _
  · exact keeps_pure trivial

theorem keeps_accept (d : Datum) (line : Int) : h.Keeps (accept setup d line) Holds := by
  refine (keeps_perform (keeps_load d)).bind fun h₁ _ expr hexpr => ?_
  exact (keeps_record _).bind fun h₂ hh₂ _ _ => keeps_pure (hexpr.mono hh₂)

theorem keeps_evaluateValue {expr : Value} (hexpr : h.Holds expr) :
    h.Keeps (evaluateValue setup expr) Holds := by
  refine keeps_get fun s hs => ?_
  refine Keeps.bind (keeps_perform ((h.serves_evaluate setup.style setup.evaluating).keeps hexpr))
    (fun h₁ _ v hv => ?_) s hs
  exact (keeps_record _).bind fun h₂ hh₂ _ _ => keeps_pure (hv.mono hh₂)

theorem keeps_form (d : Datum) (line : Int) :
    h.Keeps (accept setup d line >>= evaluateValue setup) Holds :=
  (keeps_accept d line).bind fun _ _ _ hexpr => keeps_evaluateValue hexpr

theorem keeps_evaluateOne : h.Keeps (evaluateOne setup) Holds := by
  refine keeps_get fun s hs => ?_
  refine Keeps.bind (keeps_moving fun _ => _) (fun h₁ _ _ _ => ?_) s hs
  have hread : h₁.Keeps (perform (Action.ofExcept (Datum.read setup.reading s.machine.source).1))
      fun _ _ => True :=
    keeps_perform (keeps_ofExcept fun _ _ => trivial)
  exact hread.bind fun h₂ _ d _ => keeps_form d _

theorem keeps_evaluateForms {last : Value} (text : Source) (hlast : h.Holds last) :
    h.Keeps (evaluateForms setup last text) Holds := by
  induction hn : text.unread.length using Nat.strongRecOn generalizing text last h with
  | ind n ih =>
    rw [evaluateForms]
    split
    · next d rest hread =>
      have hlt := Datum.length_unread_lt_of_read hread
      refine (keeps_accept d _).bind fun h₁ _ expr hexpr => ?_
      refine (keeps_evaluateValue hexpr).bind fun h₂ _ v hv => ?_
      exact ih _ (hn ▸ hlt) rest hv rfl
    · exact keeps_pure hlast
    · exact keeps_throw _

theorem keeps_evaluateText (code : String) : h.Keeps (evaluateText setup code) Holds :=
  keeps_evaluateForms (.ofString code) (holds_of_not_isPair rfl)

theorem keeps_report (fault : Fault) : h.Keeps (report setup fault) fun _ _ => True :=
  (keeps_record _).bind fun _ _ _ _ => keeps_enter _

theorem keeps_recover (interactive : Bool) (fault : Fault) :
    h.Keeps (recover setup interactive fault) fun _ _ => True := by
  cases fault with
  | endOfInput =>
    cases interactive with
    | true => exact (keeps_sessionWrite "\n").bind fun _ _ _ _ => keeps_pure trivial
    | false => exact keeps_pure trivial
  | malformed line cause =>
    refine (keeps_report _).bind fun h₁ _ _ _ => ?_
    exact (keeps_moving Source.skipLine).bind fun _ _ _ _ => keeps_pure trivial
  | misuse _ | unbound _ | tooDeep =>
    exact (keeps_report _).bind fun _ _ _ _ => keeps_pure trivial
  | slotTaken _ _ | tooLong => exact keeps_throw _

theorem keeps_echo (interactive : Bool) (v : Value) :
    h.Keeps (echo setup interactive v) fun _ _ => True := by
  cases interactive with
  | true => exact (keeps_perform keeps_looking).bind fun _ _ _ _ => keeps_sessionWrite _
  | false => exact keeps_pure trivial

theorem keeps_round (interactive : Bool) (prompt : String) :
    h.Keeps (round setup interactive prompt) fun _ _ => True := by
  have hturn : ∀ h : Heap, h.Keeps (turn setup interactive) fun _ _ => True := fun h =>
    keeps_evaluateOne.bind fun _ _ v _ => (keeps_echo interactive v).bind fun _ _ _ _ =>
      keeps_pure trivial
  have hround : ∀ h : Heap, h.Keeps (tryCatch (turn setup interactive) (recover setup interactive))
      fun _ _ => True :=
    fun h => (hturn h).tryCatch fun _ _ fault => keeps_recover interactive fault
  cases interactive with
  | true => exact (keeps_sessionWrite prompt).bind fun h' _ _ _ => hround h'
  | false => exact hround h

theorem keeps_rounds (interactive : Bool) (prompt : String) (fuel errors : Nat) :
    h.Keeps (rounds setup interactive prompt fuel errors) fun _ _ => True := by
  induction fuel generalizing h errors with
  | zero => exact keeps_pure trivial
  | succ fuel ih =>
    refine (keeps_round interactive prompt).bind fun h' _ how _ => ?_
    cases how with
    | finished => exact keeps_pure trivial
    | evaluated => exact ih errors
    | recovered => exact ih (errors + 1)

theorem keeps_run (interactive : Bool) (prompt : String) :
    h.Keeps (run setup interactive prompt) fun _ _ => True :=
  keeps_get fun s hs => keeps_rounds interactive prompt _ _ s hs

theorem Keeps.after {t : Turn α} {post : Heap → α → Prop} (ht : h.Keeps t post)
    (hs : s.machine.store.Backed h) :
    ∃ h', h.Extends h' ∧ (t.after s).machine.store.Backed h' := by
  unfold Turn.after
  cases hts : t s with
  | ok v s' =>
    obtain ⟨h', hh, hs', -⟩ := (ht s hs).of_eq_ok hts
    exact ⟨h', hh, hs'⟩
  | error fault s' => exact (ht s hs).of_eq_error hts

theorem exists_backed_does (hs : s.machine.store.Backed h) (setup : Setup) (deed : Deed) :
    ∃ h', h.Extends h' ∧ (s.does setup deed).machine.store.Backed h' := by
  cases deed with
  | form => exact keeps_evaluateOne.after hs
  | text code => exact (keeps_evaluateText code).after hs
  | loop interactive prompt => exact (keeps_run interactive prompt).after hs

/-! ## Evaluations that are started -/

theorem exists_admits_of_accept {d : Datum} {line : Int} {expr : Value}
    (hs : s.machine.store.Backed h) (haccept : accept setup d line s = .ok expr s') :
    ∃ h', h.Extends h' ∧ h'.Admits (s'.evaluation setup expr) := by
  obtain ⟨h', hh, hs', hexpr⟩ := (keeps_accept d line s hs).of_eq_ok haccept
  exact ⟨h', hh, hs', hexpr⟩

theorem exists_admits_of_textStarts {text : Source} (hs : s.machine.store.Backed h)
    (hstarts : TextStarts setup e text s) : ∃ h', h.Extends h' ∧ h'.Admits e := by
  induction hstarts generalizing h with
  | here _ haccept he =>
    subst he
    exact exists_admits_of_accept hs haccept
  | later _ hdone _ ih =>
    obtain ⟨h₁, hh₁, hs₁, -⟩ := (keeps_form _ _ _ hs).of_eq_ok hdone
    obtain ⟨h₂, hh₂, he⟩ := ih hs₁
    exact ⟨h₂, hh₁.trans hh₂, he⟩

theorem exists_admits_of_starts {deed : Deed} (hs : s.machine.store.Backed h)
    (hstarts : s.Starts setup e deed) : ∃ h', h.Extends h' ∧ h'.Admits e := by
  induction hstarts generalizing h with
  | @form s s' source d expr _ haccept he =>
    subst he
    exact exists_admits_of_accept (s := { s with machine := { s.machine with source } }) hs haccept
  | text there => exact exists_admits_of_textStarts hs there
  | @loop s s' interactive prompt hprompted _ ih =>
    have hprompt : h.Keeps (if interactive then Session.write prompt else pure ())
        fun _ _ => True := by
      cases interactive with
      | true => exact keeps_sessionWrite prompt
      | false => exact keeps_pure trivial
    obtain ⟨h₁, hh₁, hs₁, -⟩ := (hprompt s hs).of_eq_ok hprompted
    obtain ⟨h₂, hh₂, he⟩ := ih hs₁
    exact ⟨h₂, hh₁.trans hh₂, he⟩
  | laterRound hdone _ ih =>
    obtain ⟨h₁, hh₁, hs₁, -⟩ := (keeps_round _ _ _ hs).of_eq_ok hdone
    obtain ⟨h₂, hh₂, he⟩ := ih hs₁
    exact ⟨h₂, hh₁.trans hh₂, he⟩

theorem exists_backed_start (source : Source) :
    ∃ h, (start source).machine.store.Backed h := by
  have hdefine : ∀ {s : Store} (name : String) {v : Value}, v.isPair = false →
      (∃ h, s.Backed h) → ∃ h, (s.define 0 name v).2.Backed h := by
    rintro s name v hv ⟨h, hs⟩
    exact ⟨h, hs.define (holds_of_not_isPair hv) 0 name⟩
  have hblank : blank.Backed .empty := Store.Backed.empty.newFrame none
  rw [store_start]
  exact Store.register_induction (P := fun s => ∃ h, s.Backed h) (fun _ _ _ => hdefine _ rfl)
    (fun _ => hdefine _ rfl) ⟨_, hblank.renumber (extends_skipTo (Nat.le_succ _)) rfl⟩

end Heap

end Keel
