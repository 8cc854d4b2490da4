import Keel.Proofs.Bytes.Copy
import Keel.Proofs.Scoping.Resolution

/-! # A function that copies its input

The function `copy` writes the character whose code it is called with and calls itself
with the next one, until the input ends. Each call makes a frame, but what the
names of the program mean is the same in all of them, so a text is copied by induction
on its length. A character takes three levels of evaluation.
-/

namespace Keel.Copier

def call : Datum :=
  .list [.symbol "copy", .list [.symbol "getchar"]]

/-- The body of the function, in which `c` stands for the code of a character. -/
def body : Datum :=
  .list [.symbol "if", .list [.symbol "<", .symbol "c", .int 0],
    .list [.symbol "quote", .symbol "end"],
    .list [.symbol "begin", .list [.symbol "print", .list [.symbol "itoc", .symbol "c"]], call]]

def definition : Datum :=
  .list [.symbol "define", .list [.symbol "copy", .symbol "c"], body]

def primitives : List Primitive :=
  [.print, .itoc, .getchar, .arithmetic .less]

/-- The names of the program mean in the frame what they should. -/
structure Sees (s : Store) (f : FrameId) (id : ClosureId) : Prop where
  primitive : ∀ p ∈ primitives, ∃ i, s.lookup f p.name = .ok (.primitive i p)
  function : s.lookup f "copy" = .ok (.closure id)

structure Defined (s : Store) (f : FrameId) (id : ClosureId) : Prop where
  sees : Sees s f id
  lt_size : f < s.frames.size
  record : ∃ code, s.closures[id]? = some ⟨[.symbol "c"], code, f, some "copy"⟩ ∧
    code.map Value.toDatum? = [body].map some

section Frames

variable {s : Store} {f : FrameId} {id : ClosureId}

/-- Another frame sees the same if all names but the parameter mean the same there. -/
theorem Sees.of_lookup {s' : Store} {f' : FrameId} (h : Sees s f id)
    (hlookup : ∀ name v, name ∉ ["c"] → s.lookup f name = .ok v → s'.lookup f' name = .ok v) :
    Sees s' f' id where
  primitive p hp := by
    have hname : ∀ p ∈ primitives, p.name ∉ ["c"] := by decide
    obtain ⟨i, hi⟩ := h.primitive p hp
    exact ⟨i, hlookup p.name _ (hname p hp) hi⟩
  function := hlookup "copy" _ (by decide) h.function

/-- The function makes its frame inside the one that it was made in. -/
theorem Defined.sees_withArguments (h : Defined s f id) (v : Value) :
    Sees (s.withArguments f ["c"] [v]) s.frames.size id :=
  h.sees.of_lookup fun _ _ hname => Store.lookup_withArguments_of_notMem h.lt_size hname

theorem Defined.withArguments (h : Defined s f id) (v : Value) :
    Defined (s.withArguments f ["c"] [v]) f id where
  sees := h.sees.of_lookup fun _ _ _ => Store.lookup_withArguments_of_lt h.lt_size
  lt_size := by simpa [Store.withArguments] using Nat.lt_succ_of_lt h.lt_size
  record := h.record

theorem Defined.load (h : Defined s f id) (d : Datum) : Defined (s.load d).2 f id where
  sees := by
    have hframes : (s.load d).2.frames = s.frames := rfl
    have hcells : (s.load d).2.cells = s.cells := rfl
    exact h.sees.of_lookup fun name _ _ => (Store.lookup_congr hframes hcells f name).trans
  lt_size := h.lt_size
  record := h.record

/-- The function can be defined in the frame: the primitives are there, and the name is free. -/
structure Ready (s : Store) (f : FrameId) : Prop where
  primitive : ∀ p ∈ primitives, ∃ i, s.lookup f p.name = .ok (.primitive i p)
  free : s.ownCell? f "copy" = none
  lt_size : f < s.frames.size

theorem Ready.of_eq {s' : Store} (h : Ready s f) (hframes : s'.frames = s.frames)
    (hcells : s'.cells = s.cells) : Ready s' f where
  primitive p hp := by
    obtain ⟨i, hi⟩ := h.primitive p hp
    exact ⟨i, (Store.lookup_congr hframes hcells f p.name).trans hi⟩
  free := by rw [Store.ownCell?, hframes]; exact h.free
  lt_size := by rw [hframes]; exact h.lt_size

theorem Ready.defined_bindNew (h : Ready s f)
    (hrecord : ∃ code, s.closures[id]? = some ⟨[.symbol "c"], code, f, some "copy"⟩ ∧
      code.map Value.toDatum? = [body].map some) :
    Defined (s.bindNew f "copy" (.closure id)) f id where
  sees := by
    have hname : ∀ p ∈ primitives, p.name ≠ "copy" := by decide
    refine ⟨fun p hp => ?_, Store.lookup_bindNew h.lt_size "copy" nofun⟩
    obtain ⟨i, hi⟩ := h.primitive p hp
    exact ⟨i, Store.lookup_bindNew_of_ne h.lt_size _ (hname p hp) hi⟩
  lt_size := by simpa [Store.bindNew] using h.lt_size
  record := hrecord

theorem Ready.exists_define {m : Machine} (h : Ready m.store f) {code : List Value}
    (hcode : code.map Value.toDatum? = [body].map some) :
    ∃ store, Procedure.define ⟨"copy", ["c"], code⟩ f m = .ok (.symbol "copy") { m with store } ∧
      Defined store f m.store.closures.size := by
  let made : Store := (m.store.newClosure ⟨[.symbol "c"], code, f, some "copy"⟩).2
  have hmade : Ready made f := h.of_eq rfl rfl
  refine ⟨_, ?_, hmade.defined_bindNew ⟨code, Array.getElem?_push_size, hcode⟩⟩
  show EStateM.Result.ok (Value.symbol "copy")
    { m with store := (made.define f "copy" (.closure m.store.closures.size)).2 } = _
  rw [Store.define_of_eq_none hmade.free]

end Frames

/-- The machine on which the body is evaluated after the call on the given one. -/
def entered (home : FrameId) (m : Machine) : Machine where
  store := m.store.withArguments home ["c"]
    [.int (m.source.unread.head?.elim (-1) fun c => c.toNat)]
  source := m.source.next.2
  output := m.output

theorem lookup_entered (home : FrameId) (m : Machine) :
    (entered home m).store.lookup m.store.frames.size "c" =
      .ok (.int (m.source.unread.head?.elim (-1) fun c => c.toNat)) :=
  Store.lookup_withArguments (i := 0) (by decide) rfl rfl nofun

/-! ## The body and the call -/

section Expressions

variable {limit : Nat} {f home : FrameId} {id : ClosureId} {m m' : Machine} {v : Value}

theorem yields_test (hsees : Sees m.store f id) {i : Int}
    (hc : m.store.lookup f "c" = .ok (.int i)) :
    Yields .plain (limit + 2) f (.list [.symbol "<", .symbol "c", .int 0]) m (.bool (i < 0)) m := by
  obtain ⟨_, hless⟩ := hsees.primitive (.arithmetic .less) (by decide)
  exact yields_primitive hless (.cons (yields_symbol hc) (.single (yields_int 0))) rfl

theorem yields_body_end (hsees : Sees m.store f id) (hc : m.store.lookup f "c" = .ok (.int (-1))) :
    Yields .plain (limit + 3) f body m (.symbol "end") m :=
  yields_if (yields_test hsees hc) (yields_quote "end")

theorem yields_body_char (hsees : Sees m.store f id) {c : Char}
    (hc : m.store.lookup f "c" = .ok (.int c.toNat)) (hbyte : c.toNat < 0x100)
    (hrest : Yields .plain (limit + 3) f call { m with output := m.output ++ c.toString } v m') :
    Yields .plain (limit + 5) f body m v m' := by
  obtain ⟨_, hprint⟩ := hsees.primitive .print (by decide)
  obtain ⟨_, hitoc⟩ := hsees.primitive .itoc (by decide)
  have hnot : decide ((c.toNat : Int) < 0) = false :=
    decide_eq_false (Int.not_lt.2 (Int.natCast_nonneg _))
  have htest : Yields .plain (limit + 2) f (.list [.symbol "<", .symbol "c", .int 0]) m
      (.bool false) m := hnot ▸ yields_test hsees hc
  exact yields_if (htest.mono (by omega)) (yields_begin
    (.cons (yields_print_itoc hprint hitoc (yields_symbol hc) hbyte) (.single hrest)))

theorem yields_call (hdefined : Defined m.store home id) (hsees : Sees m.store f id)
    (hbody : Yields .plain (limit + 2) m.store.frames.size body (entered home m) v m') :
    Yields .plain (limit + 3) f call m v m' := by
  obtain ⟨_, hgetchar⟩ := hsees.primitive .getchar (by decide)
  obtain ⟨code, hrecord, hcode⟩ := hdefined.record
  have htakes : (Closure.mk [.symbol "c"] code home (some "copy")).Takes ["c"] := ⟨rfl, by decide⟩
  exact yields_function (by decide) hsees.function (.single (yields_getchar hgetchar)) hrecord
    htakes rfl hcode (.single hbody)

end Expressions

/-! ## The whole input -/

/-- The call writes all that is unread. -/
theorem exists_yields_call {text : List Char} (htext : ∀ c ∈ text, c.toNat < 0x100)
    {home f : FrameId} {id : ClosureId} {m : Machine} (hdefined : Defined m.store home id)
    (hsees : Sees m.store f id) (hunread : m.source.unread = text) :
    ∃ m', Yields .plain (3 * text.length + 4) f call m (.symbol "end") m' ∧
      m'.output = m.output ++ String.ofList text ∧ m'.source.unread = [] := by
  induction text generalizing f m with
  | nil =>
    have hc := lookup_entered home m
    rw [hunread] at hc
    have hbody : Yields .plain (1 + 2) m.store.frames.size body (entered home m) (.symbol "end")
        (entered home m) := yields_body_end (hdefined.sees_withArguments _) hc
    refine ⟨entered home m, yields_call hdefined hsees hbody, String.append_empty.symm, ?_⟩
    show m.source.next.2.unread = []
    rw [Source.unread_next, hunread, List.tail_nil]
  | cons c text ih =>
    obtain ⟨hbyte, htext⟩ := List.forall_mem_cons.1 htext
    have hc := lookup_entered home m
    rw [hunread] at hc
    have hsees' : Sees (entered home m).store m.store.frames.size id :=
      hdefined.sees_withArguments _
    let written : Machine := { entered home m with output := m.output ++ c.toString }
    have hrest : written.source.unread = text := by
      show m.source.next.2.unread = text
      rw [Source.unread_next, hunread, List.tail_cons]
    obtain ⟨m', hcopied, houtput, hend⟩ :=
      ih htext (m := written) (hdefined.withArguments _) hsees' hrest
    have hbody : Yields .plain (3 * text.length + 1 + 5) m.store.frames.size body (entered home m)
        (.symbol "end") m' := yields_body_char hsees' hc hbyte hcopied
    refine ⟨m', yields_call hdefined hsees hbody, ?_, hend⟩
    rw [houtput]
    refine String.toList_inj.1 ?_
    simp [written]

end Keel.Copier
