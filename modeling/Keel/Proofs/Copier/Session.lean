import Keel.Command.Run
import Keel.Proofs.Bytes.Session
import Keel.Proofs.Copier.Function
import Keel.Proofs.Logging.Basic
import Keel.Proofs.Truncation

/-! # A program that copies its input

The program defines `copy` and calls it at its very end, so that all that follows is
input. Reading stops behind the last parenthesis of a list whatever comes next, and
nothing that follows is read as a part of the program.
-/

namespace Keel

open Grammar

/-- A list that has been read from a text of its own is read in the same way in front of any other
text, which remains unread. -/
theorem Datum.exists_read_append {limit limit' : Nat} {w rest : List Char} {d : Datum}
    {last s : Source} (hread : read limit (.ofChars w) = (.ok d, last)) (hend : last.unread = [])
    (hopens : w.head? = some '(') (hle : limit ≤ limit') (hs : s.unread = w ++ rest) :
    ∃ after, read limit' s = (.ok d, after) ∧ after.unread = rest := by
  obtain ⟨t, hb, hd⟩ := exists_denotes_of_read hread
  have hsignificant : Significant w := by
    intro c hc
    obtain rfl := Option.some.inj (hopens.symm.trans hc)
    decide
  obtain rfl : t = w := hb.unique (.nil w) hd.significant hsignificant
  rw [hend] at hd
  obtain ⟨w, -, heq, hw⟩ := hd.exchange
  obtain rfl : t = w := heq.trans (List.append_nil w)
  have hbefore : Denotes limit (t ++ rest) rest d := hw rest fun hne => absurd hopens hne
  obtain ⟨after, hafter, hrest⟩ := read_of_denotes (s := s) (hs ▸ .nil _) hbefore
  refine ⟨after, (read_eq_of_le hle ?_).trans hafter, hrest⟩
  rw [hafter]
  exact nofun

namespace Session

theorem lookup_start (source : Source) (p : Primitive) :
    (start source).machine.store.lookup (start source).root p.name = .ok (.primitive 0 p) := by
  have hall : ∀ p ∈ Primitive.all, (blank.register 0).lookup 0 p.name = .ok (.primitive 0 p) := by
    decide +kernel
  rw [store_start, root_start]
  exact hall p p.mem_all

/-- A run that comes to its end has read the whole text, and the line tells how many newlines there
were. -/
theorem line_of_run {setup : Setup} {interactive : Bool} {prompt text : String} {errors : Nat}
    {s : Session} (h : run setup interactive prompt (start (.ofString text)) = .ok errors s) :
    s.unread = [] ∧ s.machine.source.line = 1 + text.toList.count '\n' := by
  obtain ⟨n, hloops⟩ := loops_run setup interactive prompt (start (.ofString text))
  have hend : s.machine.source.unread = [] := (hloops.returned h).1
  have hkeeps : Discipline.streaming.KeepsTurn (start (.ofString text))
      (run setup interactive prompt) fun _ _ => True :=
    (Discipline.streaming.lawful setup.style).turn_run Discipline.streaming.hosted
      (sound_streaming _) fun _ => trivial
  have hadvances : (start (.ofString text)).machine.source.AdvancesTo s.machine.source :=
    (hkeeps.of_eq_ok h).1.step
  have hlines := hadvances.lines
  rw [hend, start_eq] at hlines
  refine ⟨hend, ?_⟩
  simpa [Source.ofString, Source.ofChars, Source.unread] using hlines

end Session

namespace Copier

def code : String :=
  "(define (copy c) (if (< c 0) 'end (begin (print (itoc c)) (copy (getchar)))))(copy (getchar))"

/-! ## Its two lists -/

def definitionText : List Char :=
  "(define (copy c) (if (< c 0) 'end (begin (print (itoc c)) (copy (getchar)))))".toList

def callText : List Char :=
  "(copy (getchar))".toList

theorem toList_code : code.toList = definitionText ++ callText := by
  decide

section Reading

variable {limit : Nat} {s : Source} {rest : List Char}

theorem exists_read_definition (hlimit : 5 ≤ limit) (hs : s.unread = definitionText ++ rest) :
    ∃ after, Datum.read limit s = (.ok definition, after) ∧ after.unread = rest := by
  have hread : Datum.read 5 (.ofChars definitionText) = (.ok definition, ⟨none, [], 1⟩) := by
    with_unfolding_all rfl
  exact Datum.exists_read_append hread rfl rfl hlimit hs

theorem exists_read_call (hlimit : 2 ≤ limit) (hs : s.unread = callText ++ rest) :
    ∃ after, Datum.read limit s = (.ok call, after) ∧ after.unread = rest := by
  have hread : Datum.read 2 (.ofChars callText) = (.ok call, ⟨none, [], 1⟩) := by
    with_unfolding_all rfl
  exact Datum.exists_read_append hread rfl rfl hlimit hs

end Reading

theorem tellable_definition {limit : Nat} (h : 13 ≤ limit) (id : Identity) :
    (Value.ofDatum definition id).1.Tellable limit := by
  intro names
  have hdepth : (Value.ofDatum definition id).1.depth = 13 := rfl
  refine Value.exists_inspect names (hdepth ▸ h) ?_
  simp [definition, body, call, Datum.list, Value.ofDatum, Value.HasNumerals, Numeral.maxDigits]

theorem tellable_call {limit : Nat} (h : 3 ≤ limit) (id : Identity) :
    (Value.ofDatum call id).1.Tellable limit := by
  intro names
  have hdepth : (Value.ofDatum call id).1.depth = 3 := rfl
  refine Value.exists_inspect names (hdepth ▸ h) ?_
  simp [call, Datum.list, Value.ofDatum, Value.HasNumerals]

/-! ## The two rounds -/

theorem ready_start (source : Source) :
    Ready (Session.start source).machine.store (Session.start source).root where
  primitive p _ := ⟨0, Session.lookup_start source p⟩
  free := by
    rw [Session.store_start, Session.root_start]
    decide +kernel
  lt_size := (Session.sound_start source).scope

section Rounds

variable {setup : Setup} {text : List Char} {s : Session}

theorem exists_round_definition (hlimit : 13 ≤ setup.evaluating)
    (hready : Ready s.machine.store s.root) (hunread : s.unread = definitionText ++ text)
    (prompt : String) :
    ∃ s' id, Session.round setup false prompt s = .ok .evaluated s' ∧
      Defined s'.machine.store s'.root id ∧ s'.machine.output = s.machine.output ∧
      s'.unread = text ∧ Session.Told setup s.journal s'.journal := by
  have hreads : 13 ≤ setup.reading :=
    Nat.le_trans hlimit (Operation.reading.room_evaluating_le _)
  have htells : 13 ≤ setup.inspecting :=
    Nat.le_trans hlimit (Operation.inspecting.room_evaluating_le _)
  obtain ⟨after, hread, hafter⟩ := exists_read_definition (Nat.le_trans (by decide) hreads) hunread
  let loaded := s.machine.store.load definition
  let m : Machine := { s.machine with store := loaded.2, source := after }
  obtain ⟨n, hn⟩ : ∃ n, setup.evaluating = n + 1 := ⟨setup.evaluating - 1, by omega⟩
  obtain ⟨code, hcode, hdefine⟩ : ∃ code : List Value,
      code.map Value.toDatum? = [body].map some ∧ ∀ f,
        evaluate setup.style (n + 1) f loaded.1 = Procedure.define ⟨"copy", ["c"], code⟩ f :=
    exists_evaluate_define (by decide) (Value.toDatum?_ofDatum definition s.machine.store.nextId)
  obtain ⟨store, hstore, hdefined⟩ : ∃ store,
      Procedure.define ⟨"copy", ["c"], code⟩ s.root m =
        .ok (.symbol "copy") { m with store } ∧ Defined store s.root m.store.closures.size :=
    Ready.exists_define (m := m) (hready.of_eq rfl rfl) hcode
  obtain ⟨journal, htold, hround⟩ := Session.exists_round hread (by rw [hn, hdefine]; exact hstore)
    (tellable_definition htells _) (.symbol "copy") prompt
  exact ⟨_, _, hround, hdefined, rfl, hafter, htold⟩

theorem exists_round_call {id : ClosureId} (hstyle : setup.style = .plain)
    (hlimit : 3 * text.length + 4 ≤ setup.evaluating) (htext : ∀ c ∈ text, c.toNat < 0x100)
    (hdefined : Defined s.machine.store s.root id) (hunread : s.unread = callText ++ text)
    (prompt : String) :
    ∃ s', Session.round setup false prompt s = .ok .evaluated s' ∧
      s'.machine.output = s.machine.output ++ String.ofList text ∧ s'.unread = [] ∧
      Session.Told setup s.journal s'.journal := by
  have hthree : 3 ≤ setup.evaluating := by omega
  have hreads : 3 ≤ setup.reading :=
    Nat.le_trans hthree (Operation.reading.room_evaluating_le _)
  have htells : 3 ≤ setup.inspecting :=
    Nat.le_trans hthree (Operation.inspecting.room_evaluating_le _)
  obtain ⟨after, hread, hafter⟩ := exists_read_call (Nat.le_of_succ_le hreads) hunread
  let loaded := s.machine.store.load call
  let m : Machine := { s.machine with store := loaded.2, source := after }
  have hloaded : Defined m.store s.root id := hdefined.load call
  obtain ⟨m', hyields, houtput, hend⟩ := exists_yields_call htext hloaded hloaded.sees hafter
  have hvalue :
      evaluate setup.style setup.evaluating s.root loaded.1 m = .ok (.symbol "end") m' := by
    rw [hstyle]
    exact hyields.mono hlimit _ (Value.toDatum?_ofDatum call s.machine.store.nextId)
  obtain ⟨journal, htold, hround⟩ := Session.exists_round hread hvalue (tellable_call htells _)
    (.symbol "end") prompt
  exact ⟨_, hround, houtput, hend, htold⟩

end Rounds

/-- The run of a new session on the program and a text. -/
theorem exists_run {setup : Setup} {text : String} (hstyle : setup.style = .plain)
    (hlimit : 3 * text.length + 13 ≤ setup.evaluating) (htext : Text.OfBytes text)
    (prompt : String) :
    ∃ s', Session.run setup false prompt (.start (.ofString (code ++ text))) = .ok 0 s' ∧
      s'.machine.output = text ∧ Session.Told setup [] s'.journal := by
  let s := Session.start (.ofString (code ++ text))
  have hunread : s.unread = definitionText ++ (callText ++ text.toList) := by
    rw [← List.append_assoc, ← toList_code, ← String.toList_append]
    simp only [s, Session.unread, Session.start_eq]
    exact Source.unread_ofChars _
  have hlength : text.toList.length = text.length := String.length_toList
  obtain ⟨s₁, id, hround₁, hdefined, houtput₁, hunread₁, htold₁⟩ :=
    exists_round_definition (by omega : 13 ≤ setup.evaluating) (ready_start _) hunread prompt
  obtain ⟨s₂, hround₂, houtput₂, hunread₂, htold₂⟩ :=
    exists_round_call hstyle (by omega) htext hdefined hunread₁ prompt
  obtain ⟨s₃, hround₃, hjournal, -, houtput₃⟩ :=
    Session.round_of_unread_eq_nil setup false prompt hunread₂
  obtain ⟨n, hloops⟩ := Session.loops_run setup false prompt s
  have hrun := (hloops.unique (.evaluated hround₁ (.evaluated hround₂ (.finished hround₃)))).2
  refine ⟨s₃, hrun, ?_, hjournal ▸ htold₁.trans htold₂⟩
  rw [houtput₃, houtput₂, houtput₁, String.ofList_toList, if_neg Bool.false_ne_true,
    String.append_empty]
  exact String.empty_append

end Copier

/-- The program of the definition of `copy` and a call at its end copies any text of bytes that
follows, whatever the text consists of: a batch run of a new session writes exactly the text and
counts no errors, it reports nothing and leaves nothing unread, and the line is that of the end of
the text. Three evaluations inside one another are enough for each character, with the activations
that they spend. So the command writes the text and nothing else if it is not logging, and it ends
well, under the limit that its process starts with or that the settings raise it to. -/
theorem copier_reproduces_input {text : String} (htext : Text.OfBytes text) :
    (∀ (setup : Setup) (prompt : String), setup.style = .plain →
      Operation.evaluating.cost * (3 * text.length + 13) + Cost.margin ≤ setup.limit →
      ∃ s, Session.run setup false prompt (.start (.ofString (Copier.code ++ text))) = .ok 0 s ∧
        s.machine.output = text ∧ s.errorText = "" ∧
        (setup.logging = false → s.journal = []) ∧ s.machine.source.unread = [] ∧
        s.machine.source.line = 1 + text.toList.count '\n') ∧
    ∀ (start : Nat) (settings : Settings) (verbose : Bool),
      Operation.evaluating.cost * (3 * text.length + 13) + Cost.margin ≤
        max start settings.recursionLimit →
      let report := Command.runText start settings verbose false (Copier.code ++ text)
      report.ending = .exit 0 ∧ report.stdout = text ∧
        ((Command.setupOf start settings verbose).logging = false → report.stderr = "") := by
  constructor
  · intro setup prompt hstyle hlimit
    obtain ⟨s, hrun, houtput, htold⟩ :=
      Copier.exists_run hstyle (Operation.le_room _ hlimit) htext prompt
    obtain ⟨hunread, hline⟩ := Session.line_of_run hrun
    refine ⟨s, hrun, houtput, ?_, htold.quiet, hunread, ?_⟩
    · rw [Session.errorText, List.filterMap_reverse, htold.filterMap_error?]
      rfl
    · have hcode : Copier.code.toList.count '\n' = 0 := by decide
      rw [hline, String.toList_append, List.count_append, hcode, Nat.zero_add]
  · intro start settings verbose hlimit report
    have hplain : (Command.setupOf start settings verbose).style = .plain := rfl
    obtain ⟨s, hrun, houtput, htold⟩ :=
      Copier.exists_run hplain (Operation.le_room _ hlimit) htext settings.prompt
    have hreport : report =
        ⟨.exit 0, Command.byteText s.machine.output, Command.journalText s⟩ := by
      simp only [report, Command.runText, hrun]
      rfl
    rw [hreport, houtput]
    refine ⟨rfl, htext.byteText_eq, fun hquiet => ?_⟩
    show Command.journalText s = ""
    rw [Command.journalText, htold.quiet hquiet]
    rfl

/-- The text starts with a letter that is not of ASCII, it closes a list that is not open, opens
others that are not closed, and ends with a zero. The session is logging; the command runs in a new
process, under the least limit that can be set. -/
theorem copier_reproduces_input_unbalanced :
    let text := "é)\n(';nil\n\x00"
    let setup : Setup := ⟨.plain, 284, true⟩
    let settings : Settings := ⟨"> ", 30, Settings.leastLimit⟩
    Text.OfBytes text ∧
      Operation.evaluating.cost * (3 * text.length + 13) + Cost.margin ≤ setup.limit ∧
      (∃ s, Session.run setup false "> " (.start (.ofString (Copier.code ++ text))) = .ok 0 s ∧
        s.machine.output = text ∧ s.errorText = "" ∧ s.machine.source.line = 3) ∧
      (Command.runText Settings.startLimit settings false false (Copier.code ++ text)).stdout = text ∧
      (Command.runText Settings.startLimit settings false false (Copier.code ++ text)).stderr = "" := by
  intro text setup settings
  have htext : Text.OfBytes text := by
    unfold Text.OfBytes
    decide
  have hlimit : Operation.evaluating.cost * (3 * text.length + 13) + Cost.margin ≤ setup.limit := by
    decide
  obtain ⟨hrun, hcommand⟩ := copier_reproduces_input htext
  obtain ⟨s, hs, houtput, herrors, -, -, hline⟩ := hrun setup "> " rfl hlimit
  obtain ⟨-, hstdout, hstderr⟩ := hcommand Settings.startLimit settings false (by decide)
  exact ⟨htext, hlimit, ⟨s, hs, houtput, herrors, hline.trans (by decide)⟩, hstdout, hstderr rfl⟩

end Keel
