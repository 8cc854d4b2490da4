import Keel.Proofs.Bytes.Evaluation
import Keel.Proofs.Concatenation.Session
import Keel.Proofs.Success
import Keel.Proofs.Yields

/-! # Copying a character

The program `(print (itoc (getchar)))` in a text of its own writes the character
that is read next, provided that it is a byte and that the three names still stand
for the primitives. It does so through the plain form of a symbol, which is its
name.
-/

namespace Keel

/-! ## Reading and writing a character -/

section Characters

variable {style : Style} {limit : Nat} {f : FrameId} {id : Identity} {m m' : Machine} {d : Datum}

/-- The code of the next character, or a negative number at the end. -/
theorem yields_getchar
    (h : m.store.lookup f Primitive.getchar.name = .ok (.primitive id .getchar)) :
    Yields style (limit + 2) f (.list [.symbol Primitive.getchar.name]) m
      (.int (m.source.unread.head?.elim (-1) fun c => c.toNat))
      { m with source := m.source.next.2 } :=
  yields_primitive h (.nil m) (Primitive.call_getchar ..)

/-- A symbol is written as its name, so a character that is a byte is written as it is. -/
theorem yields_print_itoc {i j : Identity} {c : Char}
    (hprint : m.store.lookup f Primitive.print.name = .ok (.primitive i .print))
    (hitoc : m.store.lookup f Primitive.itoc.name = .ok (.primitive j .itoc))
    (hd : Yields .plain (limit + 1) f d m (.int c.toNat) m') (hc : c.toNat < 0x100) :
    Yields .plain (limit + 3) f
      (.list [.symbol Primitive.print.name, .list [.symbol Primitive.itoc.name, d]]) m
      (.symbol "ok") { m' with output := m'.output ++ c.toString } := by
  have hcharacter : Yields .plain (limit + 2) f (.list [.symbol Primitive.itoc.name, d]) m
      (.symbol c.toString) m' := by
    refine yields_primitive hitoc (.single hd) ?_
    have hcode : Primitive.characterOf? c.toNat = some c :=
      Primitive.characterOf?_eq_some_iff.2 ⟨rfl, hc⟩
    simp only [Primitive.call, hcode]
    rfl
  exact yields_primitive hprint (.single hcharacter) rfl

end Characters

namespace Copying

def code : String :=
  "(print (itoc (getchar)))"

def datum : Datum :=
  .list [.symbol "print", .list [.symbol "itoc", .list [.symbol "getchar"]]]

/-- The names that the program uses stand for the primitives. -/
def Bound (s : Store) (f : FrameId) : Prop :=
  ∀ p ∈ [Primitive.print, .itoc, .getchar], ∃ id, s.lookup f p.name = .ok (.primitive id p)

variable {limit : Nat} {f : FrameId} {m : Machine} {c : Char} {rest : List Char}

theorem yields_datum (hbound : Bound m.store f) (hunread : m.source.unread = c :: rest)
    (hc : c.toNat < 0x100) : Yields .plain (limit + 4) f datum m (.symbol "ok")
      { m with source := m.source.next.2, output := m.output ++ c.toString } := by
  obtain ⟨_, hprint⟩ := hbound .print (by simp)
  obtain ⟨_, hitoc⟩ := hbound .itoc (by simp)
  obtain ⟨_, hgetchar⟩ := hbound .getchar (by simp)
  have hnext : m.source.unread.head?.elim (-1) (fun c => (c.toNat : Int)) = c.toNat := by
    rw [hunread]
    rfl
  exact yields_print_itoc hprint hitoc (hnext ▸ yields_getchar hgetchar) hc

/-! ## In a text of its own -/

theorem read_code {limit : Nat} (h : 3 ≤ limit) : ∃ after,
    Datum.read limit (.ofString code) = (.ok datum, after) ∧ after.unread = [] := by
  have hread : Datum.read 3 (.ofString code) = (.ok datum, ⟨none, [], 1⟩) := by
    with_unfolding_all rfl
  refine ⟨_, (Datum.read_eq_of_le h ?_).trans hread, rfl⟩
  rw [hread]
  exact nofun

theorem tellable_datum {limit : Nat} (h : 5 ≤ limit) (id : Identity) :
    (Value.ofDatum datum id).1.Tellable limit := by
  intro names
  obtain ⟨n, rfl⟩ := Nat.exists_eq_add_of_le' h
  simp only [datum, Datum.list, Datum.listTo_cons, Datum.listTo_nil, Value.ofDatum, Value.inspect,
    pure_bind]
  exact ⟨_, rfl⟩

end Copying

namespace Session

variable {setup : Setup} {s : Session}

/-- The program writes the character that is read next and consumes it, and nothing else. -/
theorem evaluateText_copying {c : Char} {rest : List Char} (hstyle : setup.style = .plain)
    (hlimit : 5 ≤ setup.evaluating) (hbound : Copying.Bound s.machine.store s.root)
    (hunread : s.machine.source.unread = c :: rest) (hc : c.toNat < 0x100) :
    ∃ s', evaluateText setup Copying.code s = .ok (.symbol "ok") s' ∧
      s'.machine.output = s.machine.output ++ c.toString ∧ s'.machine.source.unread = rest := by
  let store : Store := (s.machine.store.load Copying.datum).2
  let m : Machine := { s.machine with store }
  let m' : Machine := { m with source := m.source.next.2, output := m.output ++ c.toString }
  have hexpr : (s.machine.store.load Copying.datum).1.Tellable setup.inspecting :=
    Copying.tellable_datum (Nat.le_trans hlimit (Operation.inspecting.room_evaluating_le _))
      s.machine.store.nextId
  have hok : (Value.symbol "ok").Tellable setup.inspecting := .symbol "ok"
  have hbound' : Copying.Bound m.store s.root := by
    intro p hp
    obtain ⟨id, hid⟩ := hbound p hp
    have hframes : store.frames = s.machine.store.frames := rfl
    have hcells : store.cells = s.machine.store.cells := rfl
    exact ⟨id, (Store.lookup_congr hframes hcells s.root p.name).trans hid⟩
  have hreads : 3 ≤ setup.reading :=
    Nat.le_trans (Nat.le_trans (by decide) hlimit) (Operation.reading.room_evaluating_le _)
  obtain ⟨after, hread, hend⟩ := Copying.read_code hreads
  obtain ⟨journal, -, haccept⟩ := exists_accept after.line hexpr
  have heval : evaluate setup.style setup.evaluating s.root (s.machine.store.load Copying.datum).1 m =
      .ok (.symbol "ok") m' := by
    obtain ⟨n, hn⟩ := Nat.exists_eq_add_of_le' hlimit
    rw [hstyle, hn]
    exact Copying.yields_datum hbound' hunread hc _
      (Value.toDatum?_ofDatum Copying.datum s.machine.store.nextId)
  obtain ⟨journal', -, hvalue⟩ :=
    exists_evaluateValue (s := ⟨m, s.root, journal⟩) heval hexpr hok
  have hlast : evaluateForms setup (.symbol "ok") after = pure (.symbol "ok") := by
    have hblank : Grammar.Blank after.unread [] := hend ▸ .nil []
    obtain ⟨_, hlast⟩ : ∃ rest, Datum.read setup.reading after = (.error .endOfInput, rest) :=
      Datum.resume_blank hblank
    exact evaluateForms_of_end hlast
  refine ⟨⟨m', s.root, journal'⟩, ?_, rfl, ?_⟩
  · rw [evaluateText, evaluateForms_of_read hread]
    refine (bind_of_eq_ok ((bind_of_eq_ok haccept).trans hvalue)).trans ?_
    rw [hlast]
    rfl
  · rw [Source.unread_next, hunread, List.tail_cons]

end Session

end Keel
