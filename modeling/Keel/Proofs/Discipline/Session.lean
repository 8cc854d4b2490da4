import Keel.Proofs.Consumption
import Keel.Proofs.Discipline.Evaluation
import Keel.Session.Loop

/-! # Sessions keep disciplines

A session evaluates forms one after the other in the frame of the basis, also
after a form has failed. If the discipline allows to go on after a failure, then
it is kept by every turn of a session, and so by any sequence of turns.
-/

namespace Keel

/-! ## The records of the log -/

namespace Bounded

variable (store : Store) (limit : Nat)

theorem logRead (expr : Value) (line : Int) :
    Bounded (do return Record.read (← store.inspect limit expr) line) :=
  (inspect _ limit expr).bind fun _ => pure _

theorem logEvaluated (expr v : Value) :
    Bounded (do return Record.evaluated (← store.inspect limit expr) (← store.inspect limit v)) :=
  (inspect _ limit expr).bind fun _ => (inspect _ limit v).bind fun _ => pure _

end Bounded

/-! ## Turns -/

def Turn.after {α : Type} (t : Turn α) (s : Session) : Session :=
  match t s with
  | .ok _ s' => s'
  | .error _ s' => s'

namespace Session

/-- What a session can be asked to do. -/
inductive Deed where
  /-- Evaluate the next form of its source. -/
  | form
  /-- Evaluate the forms of a text of its own. -/
  | text (code : String)
  /-- Run the loop. -/
  | loop (interactive : Bool) (prompt : String)
  deriving DecidableEq, Repr

def does (s : Session) (setup : Setup) : Deed → Session
  | .form => (evaluateOne setup).after s
  | .text code => (evaluateText setup code).after s
  | .loop interactive prompt => (run setup interactive prompt).after s

/-- The session after it has done what it was asked for, where it failed and where it did not. -/
def afterAll (s : Session) (deeds : List (Setup × Deed)) : Session :=
  deeds.foldl (fun s (setup, deed) => s.does setup deed) s

/-- What sessions are given: the texts that they read, the data in them, and the texts that they
write besides values. -/
structure Terms where
  Legible : Source → Prop
  Given : Datum → Prop
  Said : String → Prop
  legible_of_advancesTo : ∀ {source source'}, source.AdvancesTo source' → Legible source →
    Legible source'
  given_of_read : ∀ {limit source d rest}, Legible source →
    Datum.read limit source = (.ok d, rest) → Given d
  said_newline : Said "\n"

def Terms.free : Terms where
  Legible _ := True
  Given _ := True
  Said _ := True
  legible_of_advancesTo _ _ := trivial
  given_of_read _ _ := trivial
  said_newline := trivial

def Deed.OnTerms (T : Terms) : Deed → Prop
  | .form => True
  | .text code => T.Legible (.ofString code)
  | .loop interactive prompt => interactive = true → T.Said prompt

theorem Deed.onTerms_free (deed : Deed) : deed.OnTerms .free := by
  cases deed with
  | form => exact trivial
  | text code => exact trivial
  | loop interactive prompt => exact fun _ => trivial

end Session

namespace Discipline

variable (D : Discipline)

/-- What is to be shown of a lawful discipline, so that sessions keep it on the given terms. -/
structure Hosted (T : Session.Terms := .free) : Prop where
  /-- A session goes on after a failure. -/
  recover : ∀ {m m' fault}, D.Fails m fault m' → D.Step m m' ∧ D.Good m'
  legible : ∀ {m}, D.Good m → T.Legible m.source
  load : ∀ {m d}, D.Good m → T.Given d → D.Keeps m (Action.updating (·.load d)) D.Code
  advance : ∀ {m source}, D.Good m → m.source.AdvancesTo source →
    D.Step m { m with source := source } ∧ D.Good { m with source := source }
  write : ∀ {m} (text : String), D.Good m → T.Said text →
    D.Step m { m with output := m.output ++ text } ∧
      D.Good { m with output := m.output ++ text }

structure Sound (s : Session) : Prop where
  good : D.Good s.machine
  scope : D.Scope s.root s.machine

structure Reaches (s s' : Session) : Prop where
  step : D.Step s.machine s'.machine
  sound : D.Sound s'
  root : s'.root = s.root

/-- From `s` the turn goes on as it may, whether or not it fails. -/
def KeepsTurn {α : Type} (s : Session) (t : Turn α) (post : α → Machine → Prop) : Prop :=
  match t s with
  | .ok v s' => D.Reaches s s' ∧ post v s'.machine
  | .error _ s' => D.Reaches s s'

variable {D} {style : Style} {α β : Type} {s : Session} {T : Session.Terms}

theorem KeepsTurn.after {t : Turn α} {post : α → Machine → Prop} (ht : D.KeepsTurn s t post) :
    D.Reaches s (t.after s) := by
  unfold KeepsTurn at ht
  unfold Turn.after
  cases hts : t s with
  | error fault s' =>
    rw [hts] at ht
    exact ht
  | ok v s' =>
    rw [hts] at ht
    exact ht.1

theorem turn_get {k : Session → Turn β} {post : β → Machine → Prop}
    (hk : D.KeepsTurn s (k s) post) : D.KeepsTurn s (get >>= k) post :=
  hk

theorem Coherent.reaches_refl (h : D.Coherent) (hs : D.Sound s) : D.Reaches s s :=
  ⟨h.refl, hs, rfl⟩

theorem Coherent.reaches_trans (h : D.Coherent) {s' s'' : Session} (hs : D.Reaches s s')
    (hs' : D.Reaches s' s'') : D.Reaches s s'' :=
  ⟨h.trans hs.step hs'.step, hs'.sound, hs'.root.trans hs.root⟩

namespace Lawful

variable (h : D.Lawful style) (hosted : D.Hosted T)
include h

/-- A turn that goes on as another one does from a session that was reached. -/
theorem turn_of_reaches {s' : Session} {t t' : Turn α} {post : α → Machine → Prop}
    (hs : D.Reaches s s') (ht : D.KeepsTurn s' t post) (heq : t' s = t s') :
    D.KeepsTurn s t' post := by
  unfold KeepsTurn at ht ⊢
  rw [heq]
  cases hts : t s' with
  | error fault s'' =>
    rw [hts] at ht
    exact h.reaches_trans hs ht
  | ok v s'' =>
    rw [hts] at ht
    exact ⟨h.reaches_trans hs ht.1, ht.2⟩

theorem turn_pure {v : α} {post : α → Machine → Prop} (hs : D.Sound s) (hp : post v s.machine) :
    D.KeepsTurn s (pure v) post :=
  ⟨h.reaches_refl hs, hp⟩

theorem turn_throw {fault : Fault} {post : α → Machine → Prop} (hs : D.Sound s) :
    D.KeepsTurn s (throw fault) post :=
  h.reaches_refl hs

theorem turn_bind {t : Turn α} {k : α → Turn β} {mid : α → Machine → Prop}
    {post : β → Machine → Prop} (ht : D.KeepsTurn s t mid)
    (hk : ∀ v s', D.Reaches s s' → mid v s'.machine → D.KeepsTurn s' (k v) post) :
    D.KeepsTurn s (t >>= k) post := by
  unfold KeepsTurn at ht
  cases hts : t s with
  | error fault s' =>
    rw [hts] at ht
    unfold KeepsTurn
    rw [bind_of_eq_error hts]
    exact ht
  | ok v s' =>
    rw [hts] at ht
    exact h.turn_of_reaches ht.1 (hk v s' ht.1 ht.2) (bind_of_eq_ok hts)

theorem turn_tryCatch {t : Turn α} {handle : Fault → Turn α} {post : α → Machine → Prop}
    (ht : D.KeepsTurn s t post)
    (hh : ∀ fault s', D.Reaches s s' → D.KeepsTurn s' (handle fault) post) :
    D.KeepsTurn s (tryCatch t handle) post := by
  unfold KeepsTurn at ht
  cases hts : t s with
  | ok v s' =>
    rw [hts] at ht
    unfold KeepsTurn
    rw [tryCatch_of_eq_ok hts]
    exact ht
  | error fault s' =>
    rw [hts] at ht
    exact h.turn_of_reaches ht (hh fault s' ht) (tryCatch_of_eq_error hts)

theorem turn_enter (hs : D.Sound s) (e : Entry) :
    D.KeepsTurn s (Session.enter e) fun _ _ => True :=
  ⟨⟨h.refl, ⟨hs.good, hs.scope⟩, rfl⟩, trivial⟩

theorem turn_ofExcept (hs : D.Sound s) (x : Except Fault α) :
    D.KeepsTurn s (Session.perform (Action.ofExcept x)) fun v _ => x = .ok v := by
  cases x with
  | error fault => exact h.reaches_refl hs
  | ok v => exact ⟨h.reaches_refl hs, rfl⟩

include hosted

theorem turn_perform {a : Action α} {post : α → Machine → Prop} (hs : D.Sound s)
    (ha : D.Keeps s.machine a post) : D.KeepsTurn s (Session.perform a) post := by
  unfold KeepsTurn
  cases ham : a s.machine with
  | error fault m' =>
    rw [Session.perform_of_eq_error ham]
    obtain ⟨hstep, hm'⟩ := hosted.recover (ha.of_eq_error ham)
    exact ⟨hstep, ⟨hm', h.scope_mono hstep hs.scope⟩, rfl⟩
  | ok v m' =>
    rw [Session.perform_of_eq_ok ham]
    obtain ⟨hstep, hm', hp⟩ := ha.of_eq_ok ham
    exact ⟨⟨hstep, ⟨hm', h.scope_mono hstep hs.scope⟩, rfl⟩, hp⟩

theorem turn_write {text : String} (hs : D.Sound s) (ht : T.Said text) :
    D.KeepsTurn s (Session.write text) fun _ _ => True := by
  obtain ⟨hstep, hm'⟩ := hosted.write text hs.good ht
  exact ⟨⟨hstep, ⟨hm', h.scope_mono hstep hs.scope⟩, rfl⟩, trivial⟩

theorem turn_advance {source : Source} (hs : D.Sound s)
    (hadvance : s.machine.source.AdvancesTo source) :
    D.KeepsTurn s (Session.perform (modify ({ · with source }))) fun _ _ => True := by
  obtain ⟨hstep, hm'⟩ := hosted.advance hs.good hadvance
  exact ⟨⟨hstep, ⟨hm', h.scope_mono hstep hs.scope⟩, rfl⟩, trivial⟩

theorem turn_record {setup : Setup} {r : Store → Except Fault Record} (hs : D.Sound s)
    (hr : Bounded (r s.machine.store)) :
    D.KeepsTurn s (Session.record setup r) fun _ _ => True := by
  unfold Session.record
  split
  · refine h.turn_bind (h.turn_perform hosted hs (h.keeps_bounded hs.good hr.unlessTooLong))
      fun told _ hs' _ => ?_
    cases told with
    | none => exact h.turn_pure hs'.sound trivial
    | some told => exact h.turn_enter hs'.sound _
  · exact h.turn_pure hs trivial

theorem turn_accept {d : Datum} (hs : D.Sound s) (setup : Setup) (hd : T.Given d) (line : Int) :
    D.KeepsTurn s (Session.accept setup d line) D.Code := by
  have hload := hosted.load hs.good hd
  refine h.turn_bind (h.turn_perform hosted hs hload) fun expr s₁ hs₁ hexpr => ?_
  refine h.turn_bind (h.turn_record hosted hs₁.sound (.logRead _ _ _ _)) fun _ s₂ hs₂ _ => ?_
  exact h.turn_pure hs₂.sound (h.code_mono hs₂.step hexpr)

end Lawful

variable {setup : Setup}

namespace Lawful

variable (h : D.Lawful setup.style) (hosted : D.Hosted T)
include h hosted

theorem turn_evaluateValue {expr : Value} (hs : D.Sound s) (hc : D.Code expr s.machine) :
    D.KeepsTurn s (Session.evaluateValue setup expr) D.Val := by
  have hev := h.evaluate setup.evaluating hs.good hs.scope hc
  refine turn_get (h.turn_bind (h.turn_perform hosted hs hev) fun v s₁ hs₁ hv => ?_)
  refine h.turn_bind (h.turn_record hosted hs₁.sound (.logEvaluated _ _ _ _)) fun _ s₂ hs₂ _ => ?_
  exact h.turn_pure hs₂.sound (h.val_mono hs₂.step hv)

theorem turn_evaluateOne (hs : D.Sound s) :
    D.KeepsTurn s (Session.evaluateOne setup) D.Val := by
  have hmove := Datum.advancesTo_read setup.reading s.machine.source
  have hlegible := hosted.legible hs.good
  refine turn_get (h.turn_bind (h.turn_advance hosted hs hmove) fun _ s₁ hs₁ _ => ?_)
  refine h.turn_bind (h.turn_ofExcept hs₁.sound _) fun d s₂ hs₂ hread => ?_
  have hd := T.given_of_read hlegible (Prod.ext hread rfl)
  refine h.turn_bind (h.turn_accept hosted hs₂.sound setup hd _) fun expr s₃ hs₃ hc => ?_
  exact h.turn_evaluateValue hosted hs₃.sound hc

theorem turn_evaluateForms {last : Value} (text : Source) (hs : D.Sound s)
    (ht : T.Legible text) (hl : D.Val last s.machine) :
    D.KeepsTurn s (Session.evaluateForms setup last text) D.Val := by
  induction hn : text.unread.length using Nat.strongRecOn generalizing text last s with
  | ind n ih =>
    rw [Session.evaluateForms]
    split
    · next d rest hread =>
      have hlt := Datum.length_unread_lt_of_read hread
      have hd := T.given_of_read ht hread
      have hrest : T.Legible rest := by
        have hadvances := Datum.advancesTo_read setup.reading text
        rw [hread] at hadvances
        exact T.legible_of_advancesTo hadvances ht
      refine h.turn_bind (h.turn_accept hosted hs setup hd _) fun expr s₁ hs₁ hc => ?_
      refine h.turn_bind (h.turn_evaluateValue hosted hs₁.sound hc) fun v s₂ hs₂ hv => ?_
      exact ih _ (hn ▸ hlt) rest hs₂.sound hrest hv rfl
    · exact h.turn_pure hs hl
    · exact h.turn_throw hs

theorem turn_evaluateText {code : String} (hs : D.Sound s) (hcode : T.Legible (.ofString code)) :
    D.KeepsTurn s (Session.evaluateText setup code) D.Val :=
  h.turn_evaluateForms hosted _ hs hcode h.val_nil

theorem turn_report {fault : Fault} (hs : D.Sound s) :
    D.KeepsTurn s (Session.report setup fault) fun _ _ => True :=
  h.turn_bind (h.turn_record hosted hs (.pure _)) fun _ _ hs' _ =>
    h.turn_enter hs'.sound _

theorem turn_recover {interactive : Bool} {fault : Fault} (hs : D.Sound s) :
    D.KeepsTurn s (Session.recover setup interactive fault) fun _ _ => True := by
  cases fault with
  | endOfInput =>
    cases interactive with
    | true =>
      exact h.turn_bind (h.turn_write hosted hs T.said_newline) fun _ _ hs' _ =>
        h.turn_pure hs'.sound trivial
    | false => exact h.turn_pure hs trivial
  | malformed line cause =>
    refine h.turn_bind (h.turn_report hosted hs) fun _ s₁ hs₁ _ => ?_
    have hskip : D.KeepsTurn s₁
        (Session.perform (modify fun m => { m with source := m.source.skipLine }))
        fun _ _ => True :=
      h.turn_advance hosted hs₁.sound (Source.advancesTo_skipLine s₁.machine.source)
    exact h.turn_bind hskip fun _ s₂ hs₂ _ => h.turn_pure hs₂.sound trivial
  | misuse _ | unbound _ | tooDeep =>
    exact h.turn_bind (h.turn_report hosted hs) fun _ _ hs' _ => h.turn_pure hs'.sound trivial
  | slotTaken _ _ | tooLong => exact h.turn_throw hs

theorem turn_echo {interactive : Bool} {v : Value} (hs : D.Sound s) (hv : D.Val v s.machine) :
    D.KeepsTurn s (Session.echo setup interactive v) fun _ _ => True := by
  cases interactive with
  | true =>
    have hbounded := setup.style.bounded s.machine.store.closureName setup.writing v
    have hshow := h.keeps_bounded (f := fun store =>
      setup.style.write store.closureName setup.writing v) hs.good hbounded
    have hboth := hshow.and (h.val_mono · hv)
    refine h.turn_bind (h.turn_perform hosted hs hboth) fun text s₁ hs₁ ⟨⟨hsame, htext⟩, hv₁⟩ => ?_
    rw [← hsame] at htext
    refine h.turn_perform hosted hs₁.sound ?_
    rw [Action.write_append]
    refine h.keeps_bind (h.primitives.write hs₁.sound.good hv₁ htext) fun _ m _ hm _ => ?_
    obtain ⟨hstep, hm'⟩ := hosted.write "\n" hm T.said_newline
    exact ⟨hstep, hm', trivial⟩
  | false => exact h.turn_pure hs trivial

theorem turn_turn {interactive : Bool} (hs : D.Sound s) :
    D.KeepsTurn s (Session.turn setup interactive) fun _ _ => True := by
  refine h.turn_bind (h.turn_evaluateOne hosted hs) fun v s₁ hs₁ hv => ?_
  refine h.turn_bind (h.turn_echo hosted hs₁.sound hv) fun _ s₂ hs₂ _ => ?_
  exact h.turn_pure hs₂.sound trivial

theorem turn_round {interactive : Bool} {prompt : String} (hs : D.Sound s)
    (hprompt : interactive = true → T.Said prompt) :
    D.KeepsTurn s (Session.round setup interactive prompt) fun _ _ => True := by
  have hround : ∀ s', D.Sound s' → D.KeepsTurn s'
      (tryCatch (Session.turn setup interactive) (Session.recover setup interactive))
      fun _ _ => True :=
    fun s' hs' => h.turn_tryCatch (h.turn_turn hosted hs') fun _ _ hs'' =>
      h.turn_recover hosted hs''.sound
  cases interactive with
  | true =>
    exact h.turn_bind (h.turn_write hosted hs (hprompt rfl)) fun _ s' hs' _ => hround s' hs'.sound
  | false => exact hround s hs

theorem turn_rounds {interactive : Bool} {prompt : String} (fuel errors : Nat) (hs : D.Sound s)
    (hprompt : interactive = true → T.Said prompt) :
    D.KeepsTurn s (Session.rounds setup interactive prompt fuel errors) fun _ _ => True := by
  induction fuel generalizing errors s with
  | zero => exact h.turn_pure hs trivial
  | succ fuel ih =>
    refine h.turn_bind (h.turn_round hosted hs hprompt) fun round s' hs' _ => ?_
    cases round with
    | finished => exact h.turn_pure hs'.sound trivial
    | evaluated => exact ih errors hs'.sound
    | recovered => exact ih (errors + 1) hs'.sound

theorem turn_run {interactive : Bool} {prompt : String} (hs : D.Sound s)
    (hprompt : interactive = true → T.Said prompt) :
    D.KeepsTurn s (Session.run setup interactive prompt) fun _ _ => True :=
  h.turn_rounds hosted _ 0 hs hprompt

theorem reaches_does {deed : Session.Deed} (hs : D.Sound s) (hdeed : deed.OnTerms T) :
    D.Reaches s (s.does setup deed) := by
  cases deed with
  | form => exact (h.turn_evaluateOne hosted hs).after
  | text code => exact (h.turn_evaluateText hosted hs hdeed).after
  | loop interactive prompt => exact (h.turn_run hosted hs hdeed).after

end Lawful

theorem Coherent.reaches_onTerms (h : D.Coherent) (hosted : D.Hosted T) (hs : D.Sound s)
    {deeds : List (Setup × Session.Deed)}
    (hdeeds : ∀ d ∈ deeds, D.Lawful d.1.style ∧ d.2.OnTerms T) : D.Reaches s (s.afterAll deeds) := by
  induction deeds generalizing s with
  | nil => exact h.reaches_refl hs
  | cons d deeds ih =>
    obtain ⟨⟨hlawful, hdeed⟩, hdeeds⟩ := List.forall_mem_cons.1 hdeeds
    have hdoes := hlawful.reaches_does hosted hs hdeed
    exact h.reaches_trans hdoes (ih hdoes.sound hdeeds)

/-- A session keeps the discipline, whatever it is asked for and however that ends. -/
theorem reaches_afterAll (h : ∀ style, D.Lawful style) (hosted : D.Hosted) (hs : D.Sound s)
    (deeds : List (Setup × Session.Deed)) : D.Reaches s (s.afterAll deeds) :=
  (h .plain).reaches_onTerms hosted hs fun d _ => ⟨h d.1.style, d.2.onTerms_free⟩

end Discipline

end Keel
