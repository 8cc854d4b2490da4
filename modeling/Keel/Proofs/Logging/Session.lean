import Mathlib.Data.List.Forall2
import Keel.Proofs.Concatenation.Session
import Keel.Proofs.Logging.Basic

/-! # Logging only observes

A session that logs goes through the same forms, faults and rounds as one that
does not, as long as everything that happens can be told: it gives the same
answers, reports the same faults and ends with the same machine. Its log is the
story of the quiet session, one record for each thing that happens.
-/

namespace Keel

def Setup.quiet (setup : Setup) : Setup :=
  { setup with logging := false }

def Setup.loud (setup : Setup) : Setup :=
  { setup with logging := true }

namespace Session

/-! ## One form -/

def readStory (d : Datum) (line : Int) : Story := fun s =>
  let (expr, store) := s.machine.store.load d
  [.read expr line store]

def valueStory (setup : Setup) (expr : Value) : Story := fun s =>
  match evaluateValue setup.quiet expr s with
  | .ok v t => [.evaluated expr v t.machine.store]
  | .error .. => []

def formStory (setup : Setup) (d : Datum) (line : Int) : Story := fun s =>
  readStory d line s ++ Story.andThen (accept setup.quiet d line) (valueStory setup) s

def sourceStory (setup : Setup) : Story := fun s =>
  match Datum.read setup.reading s.machine.source with
  | (.ok d, source) => formStory setup d source.line { s with machine := { s.machine with source } }
  | (.error _, _) => []

def textStory (setup : Setup) (text : Source) : Story :=
  match _h : Datum.read setup.reading text with
  | (.ok d, rest) => fun s =>
    formStory setup d rest.line s ++
      Story.andThen (accept setup.quiet d rest.line >>= evaluateValue setup.quiet)
        (fun _ => textStory setup rest) s
  | (.error _, _) => .silent
termination_by text.unread.length
decreasing_by exact Datum.length_unread_lt_of_read _h

/-! ## The loop -/

def faultStory : Fault → Story
  | .malformed line cause => fun _ => [.recovered (.malformed line cause)]
  | .misuse cause => fun _ => [.recovered (.misuse cause)]
  | .unbound cause => fun _ => [.recovered (.unbound cause)]
  | .tooDeep => fun _ => [.recovered .tooDeep]
  | .endOfInput | .slotTaken .. | .tooLong => .silent

def turnStory (setup : Setup) (interactive : Bool) : Story := fun s =>
  sourceStory setup s ++ Story.orElse (turn setup.quiet interactive) faultStory s

def roundStory (setup : Setup) (interactive : Bool) (prompt : String) : Story :=
  .andThen (if interactive then write prompt else pure ()) fun _ => turnStory setup interactive

def roundsStory (setup : Setup) (interactive : Bool) (prompt : String) : Nat → Story
  | 0 => .silent
  | fuel + 1 => fun s =>
    roundStory setup interactive prompt s ++
      Story.andThen (round setup.quiet interactive prompt)
        (fun how => match how with
          | .finished => .silent
          | .evaluated | .recovered => roundsStory setup interactive prompt fuel) s

def loopStory (setup : Setup) (interactive : Bool) (prompt : String) : Story := fun s =>
  roundsStory setup interactive prompt (s.machine.source.unread.length + 1) s

section Narration

variable (setup : Setup)

theorem narrates_record {r : Store → Except Fault Record} {x : Session → Happening}
    (hr : ∀ s, r s.machine.store = (x s).record setup.inspecting)
    (hreports : ∀ s, (x s).reports = []) :
    Narrates setup.inspecting (record setup.quiet r) (record setup.loud r) fun s => [x s] where
  reports s := by
    show s.journal = _
    simp [reported, hreports]
  tells s j hs := by
    obtain ⟨told, htold⟩ := hs (x s) (by simp)
    rw [record_of_eq_ok rfl (s := s.withJournal j) ((hr s).trans htold)]
    simp only [Keel.told, List.flatMap_cons, List.flatMap_nil, List.append_nil, Happening.entries,
      htold, hreports, List.reverse_singleton, List.singleton_append]
    rfl

theorem narrates_accept (d : Datum) (line : Int) :
    Narrates setup.inspecting (accept setup.quiet d line) (accept setup.loud d line)
      (readStory d line) := by
  have hrecord : ∀ expr, Narrates setup.inspecting
      (record setup.quiet fun s => do return .read (← s.inspect setup.inspecting expr) line)
      (record setup.loud fun s => do return .read (← s.inspect setup.inspecting expr) line)
      fun s => [.read expr line s.machine.store] := fun expr =>
    narrates_record setup (fun _ => rfl) fun _ => rfl
  exact (Narrates.perform _).bind fun expr => (hrecord expr).bind_silent fun _ => .pure expr

/-- A datum that is deeper than the limit admits is taken over quietly, but it cannot be told. -/
theorem accept_of_lt_depth {d : Datum} {expr : Value} {store : Store} {s : Session} (line : Int)
    (hload : s.machine.store.load d = (expr, store)) (hdepth : setup.inspecting < expr.depth)
    (hexpr : expr.HasNumerals) :
    let t := { s with machine := { s.machine with store } }
    accept setup.quiet d line s = .ok expr t ∧ accept setup.loud d line s = .error .tooDeep t := by
  intro t
  have htaken : perform (Action.updating (·.load d)) s = .ok expr t :=
    perform_of_eq_ok (Action.updating_of_eq hload)
  let r (s : Store) : Except Fault Record := do
    return .read (← s.inspect setup.inspecting expr) line
  have hdeep : r t.machine.store = .error .tooDeep := by
    simp only [r, Store.inspect, Value.inspect_of_lt_depth _ hdepth hexpr]
    rfl
  exact ⟨bind_of_eq_ok htaken,
    (bind_of_eq_ok htaken).trans (bind_of_eq_error (record_of_eq_tooDeep rfl hdeep))⟩

theorem evaluateValue_quiet (expr : Value) (s : Session) :
    evaluateValue setup.quiet expr s =
      perform (evaluate setup.style setup.evaluating s.root expr) s := by
  show (perform (evaluate setup.style setup.evaluating s.root expr) >>= fun v => pure v) s = _
  rw [bind_pure]

theorem narrates_evaluateValue (expr : Value) :
    Narrates setup.inspecting (evaluateValue setup.quiet expr) (evaluateValue setup.loud expr)
      (valueStory setup expr) := by
  let r (v : Value) (s : Store) : Except Fault Record := do
    return .evaluated (← s.inspect setup.inspecting expr) (← s.inspect setup.inspecting v)
  have hrecord : ∀ v, Narrates setup.inspecting (record setup.quiet (r v))
      (record setup.loud (r v)) fun s => [.evaluated expr v s.machine.store] := fun v =>
    narrates_record setup (fun _ => rfl) fun _ => rfl
  have hroot := Narrates.depending Session.root (fun _ _ => rfl) fun root =>
    (Narrates.perform (evaluate setup.style setup.evaluating root expr)).silent_bind fun v =>
      (hrecord v).bind_silent fun _ => .pure v
  have hstory : valueStory setup expr = fun s =>
      Story.andThen (perform (evaluate setup.style setup.evaluating s.root expr))
        (fun v s => [.evaluated expr v s.machine.store]) s := by
    funext s
    unfold valueStory Story.andThen
    rw [evaluateValue_quiet]
    cases perform (evaluate setup.style setup.evaluating s.root expr) s <;> rfl
  exact hstory ▸ hroot

theorem narrates_form (d : Datum) (line : Int) :
    Narrates setup.inspecting (accept setup.quiet d line >>= evaluateValue setup.quiet)
      (accept setup.loud d line >>= evaluateValue setup.loud) (formStory setup d line) :=
  (narrates_accept setup d line).bind (narrates_evaluateValue setup)

theorem narrates_evaluateOne :
    Narrates setup.inspecting (evaluateOne setup.quiet) (evaluateOne setup.loud)
      (sourceStory setup) := by
  have hread := fun (result : Except Fault Datum) (source : Source) =>
    (Narrates.perform (modify ({ · with source }))).silent_bind fun _ : Unit =>
      (Narrates.perform (Action.ofExcept result)).silent_bind fun d =>
        narrates_form setup d source.line
  have hstory : sourceStory setup = fun s =>
      let read := Datum.read setup.reading s.machine.source
      Story.andThen (perform (modify ({ · with source := read.2 }))) (fun _ =>
        Story.andThen (perform (Action.ofExcept read.1)) fun d =>
          formStory setup d read.2.line) s := by
    funext s
    unfold sourceStory
    rcases Datum.read setup.reading s.machine.source with ⟨fault | d, source⟩ <;> rfl
  rw [hstory]
  exact Narrates.depending (fun s => Datum.read setup.reading s.machine.source) (fun _ _ => rfl)
    fun i => hread i.1 i.2

theorem narrates_evaluateForms (last : Value) (text : Source) :
    Narrates setup.inspecting (evaluateForms setup.quiet last text)
      (evaluateForms setup.loud last text) (textStory setup text) := by
  induction hn : text.unread.length using Nat.strongRecOn generalizing text last with
  | ind n ih =>
    rw [textStory]
    split
    · next d rest hread =>
      have hlt := Datum.length_unread_lt_of_read hread
      have hquiet : Datum.read setup.quiet.reading text = (.ok d, rest) := hread
      have hloud : Datum.read setup.loud.reading text = (.ok d, rest) := hread
      rw [evaluateForms_of_read hquiet, evaluateForms_of_read hloud]
      exact (narrates_form setup d rest.line).bind fun v => ih _ (hn ▸ hlt) v rest rfl
    · next fault rest hread =>
      have hquiet : Datum.read setup.quiet.reading text = (.error fault, rest) := hread
      have hloud : Datum.read setup.loud.reading text = (.error fault, rest) := hread
      cases fault with
      | endOfInput =>
        rw [evaluateForms_of_end hquiet, evaluateForms_of_end hloud]
        exact .pure last
      | _ =>
        rw [evaluateForms_of_unreadable hquiet nofun, evaluateForms_of_unreadable hloud nofun]
        exact .throw _

theorem narrates_report (fault : Fault) :
    Narrates setup.inspecting (report setup.quiet fault) (report setup.loud fault)
      fun _ => [.recovered fault] where
  reports _ := rfl
  tells _ _ _ := rfl

theorem narrates_recover (interactive : Bool) (fault : Fault) :
    Narrates setup.inspecting (recover setup.quiet interactive fault)
      (recover setup.loud interactive fault) (faultStory fault) := by
  cases fault with
  | endOfInput =>
    cases interactive with
    | true => exact (Narrates.perform _).bind_silent fun _ => .pure _
    | false => exact .pure _
  | malformed line cause =>
    exact (narrates_report setup _).bind_silent fun _ =>
      (Narrates.perform _).bind_silent fun _ => .pure _
  | misuse _ | unbound _ | tooDeep =>
    exact (narrates_report setup _).bind_silent fun _ => .pure _
  | slotTaken _ _ | tooLong => exact .throw _

theorem narrates_turn (interactive : Bool) :
    Narrates setup.inspecting (turn setup.quiet interactive) (turn setup.loud interactive)
      (sourceStory setup) := by
  have hecho : ∀ v, Narrates setup.inspecting (echo setup.quiet interactive v)
      (echo setup.loud interactive v) .silent := by
    intro v
    cases interactive with
    | true => exact (Narrates.perform _).bind_silent fun _ => .perform _
    | false => exact .pure ()
  exact (narrates_evaluateOne setup).bind_silent fun v => (hecho v).bind_silent fun _ => .pure _

theorem narrates_round (interactive : Bool) (prompt : String) :
    Narrates setup.inspecting (round setup.quiet interactive prompt)
      (round setup.loud interactive prompt) (roundStory setup interactive prompt) := by
  have hturn := (narrates_turn setup interactive).tryCatch (narrates_recover setup interactive)
  cases interactive with
  | true => exact (Narrates.perform (Action.write prompt)).silent_bind fun _ => hturn
  | false => exact (Narrates.pure ()).silent_bind fun _ => hturn

theorem narrates_rounds (interactive : Bool) (prompt : String) (fuel errors : Nat) :
    Narrates setup.inspecting (rounds setup.quiet interactive prompt fuel errors)
      (rounds setup.loud interactive prompt fuel errors)
      (roundsStory setup interactive prompt fuel) := by
  induction fuel generalizing errors with
  | zero => exact .pure errors
  | succ fuel ih =>
    refine (narrates_round setup interactive prompt).bind fun how => ?_
    cases how with
    | finished => exact .pure errors
    | evaluated => exact ih errors
    | recovered => exact ih (errors + 1)

theorem narrates_run (interactive : Bool) (prompt : String) :
    Narrates setup.inspecting (run setup.quiet interactive prompt)
      (run setup.loud interactive prompt) (loopStory setup interactive prompt) :=
  Narrates.depending (fun s => s.machine.source.unread.length + 1) (fun _ _ => rfl) fun fuel =>
    narrates_rounds setup interactive prompt fuel 0

end Narration

/-! ## Whole sessions -/

inductive Request where
  /-- The value of the next form of its source. -/
  | form
  /-- The value of a text of its own. -/
  | text (code : String)
  /-- The number of errors of the loop. -/
  | loop (interactive : Bool) (prompt : String)
  /-- The next character of its source. -/
  | character
  deriving DecidableEq, Repr

inductive Answer where
  | value (v : Value)
  | errors (n : Nat)
  | character (c : Option Char)
  deriving DecidableEq, Repr

def answer (setup : Setup) : Request → Turn Answer
  | .form => do return .value (← evaluateOne setup)
  | .text code => do return .value (← evaluateText setup code)
  | .loop interactive prompt => do return .errors (← run setup interactive prompt)
  | .character => do return .character (← perform Action.nextChar)

/-- The answer, or the fault that stands for it. -/
def outcome {α : Type} (t : Turn α) (s : Session) : Except Fault α :=
  match t s with
  | .ok v _ => .ok v
  | .error fault _ => .error fault

/-- The answers to requests that are made one after the other, and the session after them. -/
def answers (setup : Setup) : List Request → Session → List (Except Fault Answer) × Session
  | [], s => ([], s)
  | request :: requests, s =>
    let (rest, s') := answers setup requests ((answer setup request).after s)
    (outcome (answer setup request) s :: rest, s')

def answerStory (setup : Setup) : Request → Story
  | .form => sourceStory setup
  | .text code => textStory setup (.ofString code)
  | .loop interactive prompt => loopStory setup interactive prompt
  | .character => .silent

def story (setup : Setup) : List Request → Story
  | [] => .silent
  | request :: requests => fun s =>
    answerStory setup request s ++ story setup requests ((answer setup.quiet request).after s)

theorem narrates_answer (setup : Setup) (request : Request) :
    Narrates setup.inspecting (answer setup.quiet request) (answer setup.loud request)
      (answerStory setup request) := by
  cases request with
  | form => exact (narrates_evaluateOne setup).bind_silent fun _ => .pure _
  | text code => exact (narrates_evaluateForms setup .nil _).bind_silent fun _ => .pure _
  | loop interactive prompt =>
    exact (narrates_run setup interactive prompt).bind_silent fun _ => .pure _
  | character => exact (Narrates.perform _).bind_silent fun _ => .pure _

/-- The quiet session reports the faults of its story. -/
theorem journal_answers (setup : Setup) (requests : List Request) (s : Session) :
    (answers setup.quiet requests s).2.journal =
      reported (story setup requests s) ++ s.journal := by
  induction requests generalizing s with
  | nil => rfl
  | cons request requests ih =>
    have hrequest := (narrates_answer setup request).reports s
    simp only [answers, story, ih, hrequest, reported_append, List.append_assoc]

/-- The session that logs gives the same answers and tells the story. -/
theorem answers_loud (setup : Setup) (requests : List Request) (s : Session) (j : List Entry)
    (h : ∀ x ∈ story setup requests s, ∃ r, x.record setup.inspecting = .ok r) :
    answers setup.loud requests (s.withJournal j) =
      ((answers setup.quiet requests s).1,
        (answers setup.quiet requests s).2.withJournal
          (told setup.inspecting (story setup requests s) ++ j)) := by
  induction requests generalizing s j with
  | nil => rfl
  | cons request requests ih =>
    have hrequest := (narrates_answer setup request).tells s j fun x hx =>
      h x (List.mem_append_left _ hx)
    have houtcome : outcome (answer setup.loud request) (s.withJournal j) =
        outcome (answer setup.quiet request) s := by
      unfold outcome
      rw [hrequest]
      cases answer setup.quiet request s <;> rfl
    have hafter : (answer setup.loud request).after (s.withJournal j) =
        ((answer setup.quiet request).after s).withJournal
          (told setup.inspecting (answerStory setup request s) ++ j) := by
      unfold Turn.after
      rw [hrequest]
      cases answer setup.quiet request s <;> rfl
    have hrest := ih ((answer setup.quiet request).after s)
      (told setup.inspecting (answerStory setup request s) ++ j) fun x hx =>
        h x (List.mem_append_right _ hx)
    simp only [answers, houtcome, hafter, hrest, story, told_append, List.append_assoc]

end Session

/-! ## The log -/

theorem exists_records {limit : Nat} {story : List Happening}
    (h : ∀ x ∈ story, ∃ r, x.record limit = .ok r) :
    ∃ records, List.Forall₂ (fun x r => x.record limit = .ok r) story records ∧
      (story.flatMap (Happening.entries limit)).filterMap Entry.log? = records.map Record.text := by
  induction story with
  | nil => exact ⟨[], .nil, rfl⟩
  | cons x story ih =>
    obtain ⟨⟨r, hr⟩, hstory⟩ := List.forall_mem_cons.1 h
    obtain ⟨records, hrecords, hlog⟩ := ih hstory
    refine ⟨r :: records, .cons hr hrecords, ?_⟩
    have hx : (x.entries limit).filterMap Entry.log? = [r.text] := by
      unfold Happening.entries
      rw [hr]
      cases x <;> rfl
    rw [List.flatMap_cons, List.filterMap_append, hx, hlog]
    rfl

/-- The faults that are reported are the same, whether or not there are records between them. -/
theorem filterMap_error?_entries (limit : Nat) (story : List Happening) :
    (story.flatMap (Happening.entries limit)).filterMap Entry.error? =
      (story.flatMap Happening.reports).filterMap Entry.error? := by
  induction story with
  | nil => rfl
  | cons x story ih =>
    have hx : (x.entries limit).filterMap Entry.error? = x.reports.filterMap Entry.error? := by
      unfold Happening.entries
      cases x.record limit <;> rfl
    rw [List.flatMap_cons, List.flatMap_cons, List.filterMap_append, List.filterMap_append, hx, ih]

theorem filterMap_log?_reports (story : List Happening) :
    (story.flatMap Happening.reports).filterMap Entry.log? = [] := by
  induction story with
  | nil => rfl
  | cons x story ih =>
    rw [List.flatMap_cons, List.filterMap_append, ih]
    cases x <;> rfl

open Session in
/-- A session that logs gives the same answers, reports the same faults and ends with the same
machine as one that does not, if the limit covers what the debug form of every value that it is to
tell spends, level by level along both parts of pairs, and its integers have numerals. Its log has
one record for each datum that is read, each form that has a value and each fault after which the
loop goes on, in the order in which these happen. -/
theorem logging_only_observes (setup : Setup) (source : Source) (requests : List Request)
    (h : ∀ x ∈ story setup requests (start source), ∀ v ∈ x.values,
      Operation.inspecting.cost * v.depth + Cost.margin ≤ setup.limit ∧ v.HasNumerals) :
    let quiet := answers setup.quiet requests (start source)
    let loud := answers setup.loud requests (start source)
    loud.1 = quiet.1 ∧ loud.2.machine = quiet.2.machine ∧ loud.2.root = quiet.2.root ∧
      loud.2.errorText = quiet.2.errorText ∧ quiet.2.logTexts = [] ∧
      ∃ records, List.Forall₂ (fun x r => x.record setup.inspecting = .ok r)
          (story setup requests (start source)) records ∧
        loud.2.logTexts = records.map Record.text := by
  intro quiet loud
  have htell : ∀ x ∈ story setup requests (start source), ∃ r, x.record setup.inspecting = .ok r :=
    fun x hx => Happening.exists_record fun v hv =>
      (h x hx v hv).imp_left Operation.inspecting.le_room
  have hquiet := journal_answers setup requests (start source)
  have hloud := answers_loud setup requests (start source) [] htell
  obtain ⟨records, hrecords, hlog⟩ := exists_records htell
  have hloud : loud = (quiet.1, quiet.2.withJournal
      (told setup.inspecting (story setup requests (start source)) ++ [])) := hloud
  have hjournal : quiet.2.journal.reverse =
      (story setup requests (start source)).flatMap Happening.reports := by
    have hempty : (start source).journal = [] := rfl
    rw [hempty, List.append_nil, reported] at hquiet
    rw [hquiet, List.reverse_reverse]
  have htold : loud.2.journal.reverse =
      (story setup requests (start source)).flatMap (Happening.entries setup.inspecting) := by
    rw [hloud]
    simp [withJournal, told]
  refine ⟨by rw [hloud], by rw [hloud]; rfl, by rw [hloud]; rfl, ?_, ?_, records, hrecords, ?_⟩
  · rw [errorText, errorText, htold, hjournal, filterMap_error?_entries]
  · rw [logTexts, hjournal, filterMap_log?_reports]
  · rw [logTexts, htold, hlog]

open Session in
/-- A form with a value, and the loop over one that has none. -/
theorem logging_only_observes_unbound :
    let setup : Setup := ⟨.plain, 1000, false⟩
    let s := start (.ofString "(pair 1 '(2)) x")
    let requests := [.form, .loop false ""]
    (∀ x ∈ story setup requests s, ∀ v ∈ x.values,
        Operation.inspecting.cost * v.depth + Cost.margin ≤ setup.limit ∧ v.HasNumerals) ∧
      (answers setup.loud requests s).1 = (answers setup.quiet requests s).1 ∧
      (story setup requests s).length = 4 := by
  intro setup s requests
  have hshown : ((story setup requests s).flatMap Happening.values).all
      (fun v => Operation.inspecting.cost * v.depth + Cost.margin ≤ setup.limit ∧ v.HasNumerals) =
        true := by
    decide +kernel
  have hstory : ∀ x ∈ story setup requests s, ∀ v ∈ x.values,
      Operation.inspecting.cost * v.depth + Cost.margin ≤ setup.limit ∧ v.HasNumerals := by
    intro x hx v hv
    exact of_decide_eq_true (List.all_eq_true.1 hshown v (List.mem_flatMap.2 ⟨x, hx, hv⟩))
  exact ⟨hstory, (logging_only_observes setup _ requests hstory).1, by decide +kernel⟩

open Session in
/-- A list with more items than the limit covers for the debug form is read in either case. It is
evaluated by a session that does not log, and refused by one that does, which tells nothing. -/
theorem logging_refuses_long_lists (setup : Setup) {s : Session} {items : List Datum} {tail : Datum}
    {after : Source} (hread : Datum.read setup.reading s.machine.source =
      (.ok (.listTo items tail), after))
    (hlong : setup.limit < Operation.inspecting.cost * items.length) :
    ∃ expr t, expr.toDatum? = some (.listTo items tail) ∧ t.journal = s.journal ∧
      evaluateOne setup.quiet s = evaluateValue setup.quiet expr t ∧
      evaluateOne setup.loud s = .error .tooDeep t := by
  let d : Datum := .listTo items tail
  let expr := (s.machine.store.load d).1
  let s' : Session := { s with machine := { s.machine with source := after } }
  let t : Session := { s' with machine := { s'.machine with store := (s.machine.store.load d).2 } }
  have hexpr : expr.toDatum? = some d := Value.toDatum?_ofDatum d _
  have hdepth : setup.inspecting < expr.depth := by
    refine Nat.lt_of_lt_of_le (Nat.lt_of_not_le fun hle => ?_) (Value.length_le_depth hexpr)
    have hcost := Operation.inspecting.le_room_iff.1 hle
    omega
  have hnumerals := Value.hasNumerals_of_readable hexpr (Datum.fits_of_read hread).readable
  obtain ⟨hquiet, hloud⟩ : accept setup.quiet d after.line s' = .ok expr t ∧
      accept setup.loud d after.line s' = .error .tooDeep t :=
    accept_of_lt_depth setup after.line rfl hdepth hnumerals
  refine ⟨expr, t, hexpr, rfl, ?_, ?_⟩
  · have hread' : Datum.read setup.quiet.reading s.machine.source = (.ok d, after) := hread
    rw [evaluateOne_eq, hread']
    exact bind_of_eq_ok hquiet
  · have hread' : Datum.read setup.loud.reading s.machine.source = (.ok d, after) := hread
    rw [evaluateOne_eq, hread']
    exact bind_of_eq_error hloud

end Keel
