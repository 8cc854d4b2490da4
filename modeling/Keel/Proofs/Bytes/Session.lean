import Keel.Command.Run
import Keel.Proofs.Bytes.Copy
import Keel.Proofs.Bytes.Evaluation
import Keel.Proofs.Discipline.Starts
import Keel.Proofs.Growth.Session

/-! # Sessions of bytes

A session whose texts consist of bytes names everything by bytes, whatever it is
asked for and however often that fails. Its output is made of bytes and prompts,
so that nothing is lost when it is encoded one byte for each character.
-/

namespace Keel

/-- A text of bytes is the same text as bytes. -/
theorem Text.OfBytes.byteText_eq {s : String} (h : Text.OfBytes s) : Command.byteText s = s := by
  refine String.toList_inj.1 ?_
  rw [Command.byteText, String.toList_map]
  have hsame : ∀ c ∈ s.toList, (if c.toNat < 0x100 then c else '?') = c :=
    fun c hc => if_pos (h c hc)
  rw [List.map_congr_left hsame, List.map_id']

/-- The texts that are read consist of bytes, and so do those that are written, but for some. -/
def Session.Terms.bytes (Said : String → Prop) : Session.Terms where
  Legible := Source.OfBytes
  Given := Datum.OfBytes
  Said text := Text.OfBytes text ∨ Said text
  legible_of_advancesTo h hs := hs.of_advancesTo h
  given_of_read hs h := Datum.ofBytes_of_read hs h
  said_newline := .inl (by decide)

namespace Discipline.bytes

variable {Said : String → Prop}

theorem hosted : (bytes Said).Hosted (.bytes Said) where
  recover h := h
  legible hm := hm.source
  load hm hd := keeps_updating hm (hm.store.load hd).1 (hm.store.load hd).2
  advance hm h := ⟨.of_output_eq rfl, ⟨hm.store, hm.source.of_advancesTo h⟩⟩
  write _ hm ht := ⟨.single rfl ht, ⟨hm.store, hm.source⟩⟩

theorem sound_iff {s : Session} : (bytes Said).Sound s ↔ s.machine.OfBytes :=
  ⟨fun h => h.good, fun h => ⟨h, trivial⟩⟩

end Discipline.bytes

namespace Session

theorem ofBytes_start {source : Source} (h : source.OfBytes) : (start source).machine.OfBytes where
  store := by
    have hblank : blank.OfBytes := Store.ofBytes_empty.newFrame none
    rw [store_start]
    exact hblank.register 0
  source := by
    rw [start_eq]
    exact h

section Turns

variable {setup : Setup} {s s' : Session} {v : Value}
  (hstyle : setup.style = .plain ∨ setup.style = .debug) (hs : s.machine.OfBytes)
include hstyle hs

theorem ofBytes_of_evaluateOne (h : evaluateOne setup s = .ok v s') :
    v.OfBytes ∧ s'.machine.OfBytes := by
  have hlawful : (Discipline.bytes fun _ => False).Lawful setup.style :=
    (Discipline.bytes.steady hstyle).lawful
  obtain ⟨hreach, hv⟩ := (hlawful.turn_evaluateOne Discipline.bytes.hosted
    (Discipline.bytes.sound_iff.2 hs)).of_eq_ok h
  exact ⟨hv, hreach.sound.good⟩

theorem ofBytes_of_evaluateText {code : String} (hcode : Text.OfBytes code)
    (h : evaluateText setup code s = .ok v s') : v.OfBytes := by
  have hlawful : (Discipline.bytes fun _ => False).Lawful setup.style :=
    (Discipline.bytes.steady hstyle).lawful
  exact ((hlawful.turn_evaluateText Discipline.bytes.hosted
    (Discipline.bytes.sound_iff.2 hs) hcode).of_eq_ok h).2

theorem exists_echoed (hv : v.OfBytes) (interactive : Bool) : ∃ text, Text.OfBytes text ∧
    ((echo setup interactive v).after s).machine.output = s.machine.output ++ text := by
  have hlawful : (Discipline.bytes fun _ => False).Lawful setup.style :=
    (Discipline.bytes.steady hstyle).lawful
  have hecho : (Discipline.bytes fun _ => False).KeepsTurn s (echo setup interactive v) _ :=
    hlawful.turn_echo Discipline.bytes.hosted (Discipline.bytes.sound_iff.2 hs) hv
  exact hecho.after.step.exists_text nofun

theorem ofBytes_of_starts {deed : Deed} {e : Evaluation}
    (hdeed : ∀ code, deed = .text code → Text.OfBytes code) (h : s.Starts setup e deed) :
    e.OfBytes := by
  have hlawful : (Discipline.bytes fun _ => True).Lawful setup.style :=
    (Discipline.bytes.steady hstyle).lawful
  have hterms : deed.OnTerms (.bytes fun _ => True) := by
    cases deed with
    | form => exact trivial
    | text code => exact hdeed code rfl
    | loop interactive prompt => exact fun _ => .inr trivial
  have hadmits := hlawful.admits_of_starts Discipline.bytes.hosted
    (Discipline.bytes.sound_iff.2 hs) hterms h
  exact ⟨hadmits.good, hadmits.code⟩

end Turns

end Session

/-- In a session whose texts are bytes all names are bytes, after whatever it has been asked for: in
the store, in the code and the values of every evaluation that takes place, and in results. There
`getchar` returns a byte or a negative number, and `print` and the echo write bytes; only prompts may
hold other characters. The program that copies a character passes the next one on as it is. -/
theorem session_of_bytes {source : Source} {deeds : List (Setup × Session.Deed)}
    (hsource : source.OfBytes)
    (hdeeds : ∀ d ∈ deeds, (d.1.style = .plain ∨ d.1.style = .debug) ∧
      ∀ code, d.2 = .text code → Text.OfBytes code) :
    let last := (Session.start source).afterAll deeds
    last.machine.OfBytes ∧
    (∃ pieces, last.machine.output = String.join pieces ∧
      ∀ piece ∈ pieces, Text.OfBytes piece ∨ ∃ d ∈ deeds, d.2 = .loop true piece) ∧
    ((∀ d ∈ deeds, ∀ prompt, d.2 = .loop true prompt → Text.OfBytes prompt) →
      Command.byteText last.machine.output = last.machine.output) ∧
    ∀ setup : Setup, setup.style = .plain ∨ setup.style = .debug →
      (∀ v s', Session.evaluateOne setup last = .ok v s' → v.OfBytes ∧
        ∀ interactive, ∃ text, Text.OfBytes text ∧
          ((Session.echo setup interactive v).after s').machine.output =
            s'.machine.output ++ text) ∧
      (∀ code v s', Text.OfBytes code → Session.evaluateText setup code last = .ok v s' →
        v.OfBytes) ∧
      (∀ deed e p, (∀ code, deed = .text code → Text.OfBytes code) → last.Starts setup e deed →
        e.Involves setup.style p →
          p.OfBytes ∧ (p.after setup.style).OfBytes ∧
          (∃ text, Text.OfBytes text ∧
            (p.after setup.style).output = p.machine.output ++ text) ∧
          ∀ v m', p.outcome setup.style = .ok v m' → v.OfBytes ∧
            ∀ id args m₁, p.Calls setup.style (.primitive id .getchar) args m₁ →
              ∃ i : Int, v = .int i ∧ -1 ≤ i ∧ i ≤ 255) ∧
      (setup.style = .plain → 5 ≤ setup.evaluating →
        Copying.Bound last.machine.store last.root →
        ∀ c rest, last.machine.source.unread = c :: rest →
          ∃ s', Session.evaluateText setup "(print (itoc (getchar)))" last = .ok (.symbol "ok") s' ∧
            s'.machine.output = last.machine.output ++ c.toString ∧
            s'.machine.source.unread = rest) := by
  intro last
  let Prompt (prompt : String) : Prop := ∃ d ∈ deeds, d.2 = .loop true prompt
  have hreach : (Discipline.bytes Prompt).Reaches (Session.start source) last := by
    refine Discipline.bytes.coherent.reaches_onTerms Discipline.bytes.hosted
      (Discipline.bytes.sound_iff.2 (Session.ofBytes_start hsource)) ?_
    rintro ⟨setup, deed⟩ hd
    obtain ⟨hstyle, hcode⟩ := hdeeds _ hd
    refine ⟨(Discipline.bytes.steady hstyle).lawful, ?_⟩
    cases deed with
    | form => exact trivial
    | text code => exact hcode code rfl
    | loop interactive prompt =>
      rintro rfl
      exact .inr ⟨_, hd, rfl⟩
  have hlast : last.machine.OfBytes := hreach.sound.good
  have hnothing : (Session.start source).machine.output = "" := by
    rw [Session.start_eq]
  refine ⟨hlast, ?_, ?_, ?_⟩
  · obtain ⟨pieces, heq, hpieces⟩ := hreach.step
    rw [hnothing, String.empty_append] at heq
    exact ⟨pieces, heq, hpieces⟩
  · intro hprompts
    obtain ⟨text, htext, heq⟩ := hreach.step.exists_text fun prompt ⟨d, hd, hprompt⟩ =>
      hprompts d hd prompt hprompt
    rw [hnothing, String.empty_append] at heq
    rw [heq, htext.byteText_eq]
  · intro setup hstyle
    refine ⟨fun v s' h => ?_, fun code v s' hcode h => ?_, fun deed e p hdeed hstarts hp => ?_,
      fun hplain hlimit hbound c rest hunread => ?_⟩
    · obtain ⟨hv, hs'⟩ := Session.ofBytes_of_evaluateOne hstyle hlast h
      exact ⟨hv, Session.exists_echoed hstyle hs' hv⟩
    · exact Session.ofBytes_of_evaluateText hstyle hlast hcode h
    · have hp : p.OfBytes :=
        (Session.ofBytes_of_starts hstyle hlast hdeed hstarts).of_involves hstyle hp
      obtain ⟨hafter, hwritten⟩ := hp.after hstyle
      exact ⟨hp, hafter, hwritten, fun v m' hv => ⟨hp.value hstyle hv, fun id args m₁ hcall =>
        hp.exists_int_of_calls hstyle hcall hv⟩⟩
    · have hc : c.toNat < 0x100 := hlast.source c (by rw [hunread]; exact List.mem_cons_self)
      exact Session.evaluateText_copying hplain hlimit hbound hunread hc

/-- One form fails, another makes a name; then the last character is passed on. -/
theorem session_of_bytes_last :
    let deeds : List (Setup × Session.Deed) :=
      [(⟨.debug, 120, true⟩, .form), (⟨.plain, 120, false⟩, .form)]
    let last := (Session.start (.ofString "é (itoc 255)ÿ")).afterAll deeds
    last.machine.OfBytes ∧ Command.byteText last.machine.output = last.machine.output ∧
      ∃ s', Session.evaluateText ⟨.plain, 120, false⟩ "(print (itoc (getchar)))" last =
          .ok (.symbol "ok") s' ∧
        s'.machine.output = "ÿ" ∧ s'.machine.source.unread = [] := by
  intro deeds last
  have hsource : Source.OfBytes (.ofString "é (itoc 255)ÿ") := by
    unfold Source.OfBytes
    decide
  have hdeeds : ∀ d ∈ deeds, (d.1.style = .plain ∨ d.1.style = .debug) ∧
      ∀ code, d.2 = .text code → Text.OfBytes code := by
    simp [deeds]
  have hprompts : ∀ d ∈ deeds, ∀ prompt, d.2 = .loop true prompt → Text.OfBytes prompt := by
    simp [deeds]
  have hnames : ∀ p ∈ [Primitive.print, .itoc, .getchar],
      last.machine.store.lookup last.root p.name = .ok (.primitive 0 p) := by
    decide +kernel
  have hunread : last.machine.source.unread = ['ÿ'] := by decide +kernel
  have houtput : last.machine.output = "" := by decide +kernel
  obtain ⟨hlast, -, hbytes, hsetup⟩ := session_of_bytes hsource hdeeds
  obtain ⟨-, -, -, hcopy⟩ := hsetup ⟨.plain, 120, false⟩ (.inl rfl)
  obtain ⟨s', hs', hwritten, hrest⟩ :=
    hcopy rfl (by decide) (fun p hp => ⟨0, hnames p hp⟩) 'ÿ' [] hunread
  refine ⟨hlast, hbytes hprompts, s', hs', ?_, hrest⟩
  rw [hwritten]
  exact congrArg (· ++ 'ÿ'.toString) houtput

end Keel
