import Keel.Session.Loop

/-! # Forms that succeed

Where a form is read and has a value, and both can be told, the session goes on as the
evaluation leaves the machine. Its journal grows by records at most, so no fault is
reported on the way.
-/

namespace Keel

/-- The value has a debug form, whatever the names of closures. -/
def Value.Tellable (limit : Nat) (v : Value) : Prop :=
  ∀ names, ∃ text, v.inspect names limit = .ok text

theorem Value.Tellable.symbol {limit : Nat} (name : String) :
    (Value.symbol name).Tellable limit := by
  intro names
  rw [inspect]
  exact ⟨_, rfl⟩

namespace Session

/-- From one journal to the other records have been added, if the session is logging, and nothing
else. -/
structure Told (setup : Setup) (before after : List Entry) : Prop where
  records : ∃ records : List Record, after = records.map .logged ++ before
  quiet : setup.logging = false → after = before

namespace Told

variable {setup : Setup} {before between after : List Entry}

theorem refl (setup : Setup) (journal : List Entry) : Told setup journal journal :=
  ⟨⟨[], rfl⟩, fun _ => rfl⟩

theorem trans (h : Told setup before between) (h' : Told setup between after) :
    Told setup before after := by
  obtain ⟨records, hrecords⟩ := h.records
  obtain ⟨records', hrecords'⟩ := h'.records
  refine ⟨⟨records' ++ records, ?_⟩, fun hquiet => (h'.quiet hquiet).trans (h.quiet hquiet)⟩
  rw [hrecords', hrecords, List.map_append, List.append_assoc]

theorem filterMap_error? (h : Told setup before after) :
    after.filterMap Entry.error? = before.filterMap Entry.error? := by
  obtain ⟨records, rfl⟩ := h.records
  have hnone : (records.map Entry.logged).filterMap Entry.error? = [] := by
    rw [List.filterMap_eq_nil_iff, List.forall_mem_map]
    exact fun _ _ => rfl
  rw [List.filterMap_append, hnone, List.nil_append]

end Told

variable {setup : Setup} {s : Session} {d : Datum} {expr v : Value} {m : Machine}

theorem exists_record {r : Store → Except Fault Record} {told : Record}
    (h : r s.machine.store = .ok told) :
    ∃ journal, Told setup s.journal journal ∧ record setup r s = .ok () { s with journal } := by
  cases hlogging : setup.logging with
  | true =>
    refine ⟨.logged told :: s.journal, ⟨⟨[told], rfl⟩, fun hquiet => ?_⟩,
      record_of_eq_ok hlogging h⟩
    rw [hlogging] at hquiet
    exact nomatch hquiet
  | false =>
    rw [record, hlogging]
    exact ⟨s.journal, .refl setup s.journal, rfl⟩

theorem exists_accept (line : Int) (hd : (s.machine.store.load d).1.Tellable setup.inspecting) :
    ∃ journal, Told setup s.journal journal ∧
      accept setup d line s = .ok (s.machine.store.load d).1
        ⟨{ s.machine with store := (s.machine.store.load d).2 }, s.root, journal⟩ := by
  let s₁ : Session := { s with machine := { s.machine with store := (s.machine.store.load d).2 } }
  have hload : perform (Action.updating (·.load d)) s = .ok (s.machine.store.load d).1 s₁ := rfl
  obtain ⟨text, htext⟩ := hd s₁.machine.store.closureName
  let r : Store → Except Fault Record := fun store => do
    return .read (← store.inspect setup.inspecting (s.machine.store.load d).1) line
  have hread : r s₁.machine.store = .ok (.read text line) := by
    simp only [r, Store.inspect, htext]
    rfl
  obtain ⟨journal, htold, hrecord⟩ := exists_record hread
  exact ⟨journal, htold, (bind_of_eq_ok hload).trans (bind_of_eq_ok hrecord)⟩

theorem exists_evaluateValue
    (h : evaluate setup.style setup.evaluating s.root expr s.machine = .ok v m)
    (hexpr : expr.Tellable setup.inspecting) (hv : v.Tellable setup.inspecting) :
    ∃ journal, Told setup s.journal journal ∧
      evaluateValue setup expr s = .ok v ⟨m, s.root, journal⟩ := by
  let s₁ : Session := { s with machine := m }
  have heval : perform (evaluate setup.style setup.evaluating s.root expr) s = .ok v s₁ :=
    perform_of_eq_ok h
  obtain ⟨a, ha⟩ := hexpr m.store.closureName
  obtain ⟨b, hb⟩ := hv m.store.closureName
  let r : Store → Except Fault Record := fun store => do
    return .evaluated (← store.inspect setup.inspecting expr) (← store.inspect setup.inspecting v)
  have htold : r s₁.machine.store = .ok (.evaluated a b) := by
    simp only [r, s₁, Store.inspect, ha, hb]
    rfl
  obtain ⟨journal, hjournal, hrecord⟩ := exists_record htold
  exact ⟨journal, hjournal, (bind_of_eq_ok heval).trans (bind_of_eq_ok hrecord)⟩

theorem exists_evaluateOne {after : Source}
    (hread : Datum.read setup.reading s.machine.source = (.ok d, after))
    (hvalue : evaluate setup.style setup.evaluating s.root (s.machine.store.load d).1
      { s.machine with store := (s.machine.store.load d).2, source := after } = .ok v m)
    (hd : (s.machine.store.load d).1.Tellable setup.inspecting) (hv : v.Tellable setup.inspecting) :
    ∃ journal, Told setup s.journal journal ∧ evaluateOne setup s = .ok v ⟨m, s.root, journal⟩ := by
  obtain ⟨journal, htold, haccept⟩ :=
    exists_accept (s := { s with machine := { s.machine with source := after } }) after.line hd
  obtain ⟨journal', htold', hevaluate⟩ := exists_evaluateValue
    (s := ⟨⟨(s.machine.store.load d).2, after, s.machine.output⟩, s.root, journal⟩)
    hvalue hd hv
  refine ⟨journal', htold.trans htold', ?_⟩
  rw [evaluateOne_eq, hread]
  exact (bind_of_eq_ok haccept).trans hevaluate

/-- In a batch run nothing is echoed. -/
theorem exists_round {after : Source}
    (hread : Datum.read setup.reading s.machine.source = (.ok d, after))
    (hvalue : evaluate setup.style setup.evaluating s.root (s.machine.store.load d).1
      { s.machine with store := (s.machine.store.load d).2, source := after } = .ok v m)
    (hd : (s.machine.store.load d).1.Tellable setup.inspecting) (hv : v.Tellable setup.inspecting)
    (prompt : String) : ∃ journal, Told setup s.journal journal ∧
      round setup false prompt s = .ok .evaluated ⟨m, s.root, journal⟩ := by
  obtain ⟨journal, htold, hone⟩ := exists_evaluateOne hread hvalue hd hv
  exact ⟨journal, htold, tryCatch_of_eq_ok (bind_of_eq_ok hone)⟩

end Session

end Keel
