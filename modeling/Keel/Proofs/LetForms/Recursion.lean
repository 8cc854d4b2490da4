import Keel.Proofs.Limit
import Keel.Proofs.LetForms.Shape

/-! # Functions that refer to one another

A `letrec` of functions declares all names before it makes the first function,
while definitions at the start of a body bind each name when its function has been
made. So there are names without a value for a while in the one case, and no such
names in the other. But no function looks at them while it is made, and in the end
the frames are the same.
-/

namespace Keel

structure Procedure where
  name : String
  params : List String
  body : List Value

namespace Procedure

def closure (p : Procedure) (f : FrameId) : Closure :=
  ⟨p.params.map .symbol, p.body, f, some p.name⟩

/-- The name is bound to the function, which is written as a `lambda`. -/
def Bound (p : Procedure) (b : String × Value) : Prop :=
  b.1 = p.name ∧ ∃ params, b.2.toList? = some (.symbol Form.lambda.name :: params :: p.body) ∧
    params.Parameters p.params

end Procedure

/-- The value is written as the definition that makes the binding. -/
def Value.Defines (v : Value) (b : String × Value) : Prop :=
  v.toList? = some [.symbol Form.define.name, .symbol b.1, b.2]

namespace Store

variable {s : Store} {f : FrameId} {made : List Procedure} {declared : List String}
  {p : Procedure} {name : String}

/-- The store with one more frame, in which the functions have been made and bound in order, and
further names have been declared. -/
def withProcedures (f : FrameId) (made : List Procedure) (declared : List String) (s : Store) :
    Store where
  frames := s.frames.push ⟨(made.map (·.name) ++ declared).zipIdx s.cells.size, some f⟩
  cells := s.cells ++ ((List.range' s.closures.size made.length).map Value.closure ++
    declared.map fun _ => Value.absent).toArray
  closures := s.closures ++ (made.map (·.closure s.frames.size)).toArray
  nextId := s.nextId

theorem modify_push {α : Type} (items : Array α) (x : α) (g : α → α) :
    (items.push x).modify items.size g = items.push (g x) := by
  refine Array.ext_getElem? fun i => ?_
  rw [Array.getElem?_modify, Array.getElem?_push, Array.getElem?_push]
  grind

theorem nameClosure_newClosure (s : Store) (c : Closure) (name : String) :
    (s.newClosure c).2.nameClosure (s.newClosure c).1 name =
      (s.newClosure { c with name := c.name.or (some name) }).2 := by
  simp only [newClosure, nameClosure, modify_push]

section Names

variable {names : List String} {k : Nat} {outer : Option FrameId} (hname : name ∉ names)
include hname

theorem cell?_zipIdx : Frame.cell? ⟨names.zipIdx k, outer⟩ name = none := by
  refine List.lookup_eq_none_iff.2 fun b hb => bne_iff_ne.2 ?_
  rintro rfl
  exact hname (List.fst_mem_of_mem_zipIdx hb)

theorem bind_zipIdx {c : CellId} (hc : c = k + names.length) :
    Frame.bind name c ⟨names.zipIdx k, outer⟩ = ⟨(names ++ [name]).zipIdx k, outer⟩ := by
  simp [Frame.bind, cell?_zipIdx hname, List.zipIdx_append, hc]

end Names

theorem declare_withProcedures (hname : name ∉ declared) :
    (s.withProcedures f [] declared).declare s.frames.size name =
      (s.cells.size + declared.length, s.withProcedures f [] (declared ++ [name])) := by
  have hsize : (s.withProcedures f [] declared).cells.size = s.cells.size + declared.length := by
    simp [withProcedures]
  rw [declare_eq, hsize, bindNew, hsize]
  simp [withProcedures, newCell, modify_push, bind_zipIdx hname, -List.toArray_replicate]

theorem define_withProcedures (hname : p.name ∉ made.map (·.name)) :
    let t := (s.withProcedures f made []).newClosure (p.closure s.frames.size)
    (t.2.define s.frames.size p.name t.1).2 = s.withProcedures f (made ++ [p]) [] := by
  intro t
  have hown : t.2.ownCell? s.frames.size p.name = none := by
    simpa [t, ownCell?, newClosure, withProcedures] using cell?_zipIdx hname
  have hsize : t.2.cells.size = s.cells.size + (made.map (·.name)).length := by
    simp [t, newClosure, withProcedures]
  rw [define_of_eq_none hown, bindNew, hsize]
  simp [t, withProcedures, newCell, newClosure, modify_push, List.range'_1_concat,
    bind_zipIdx hname]

theorem initialise_withProcedures :
    let t := (s.withProcedures f made (p.name :: declared)).newClosure (p.closure s.frames.size)
    t.2.setCell (s.cells.size + made.length) t.1 = s.withProcedures f (made ++ [p]) declared := by
  simp [withProcedures, newClosure, setCell, List.range'_1_concat]

theorem lookup_zipIdx {names : List String} {k i : Nat} (hnodup : names.Nodup)
    (h : names[i]? = some name) : (names.zipIdx k).lookup name = some (k + i) := by
  induction names generalizing k i with
  | nil => exact nomatch h
  | cons n names ih =>
    obtain ⟨hn, hnodup⟩ := List.nodup_cons.1 hnodup
    rw [List.zipIdx_cons, List.lookup_cons]
    cases i with
    | zero =>
      obtain rfl : n = name := Option.some.inj h
      simp
    | succ i =>
      have hne : name ≠ n := by
        rintro rfl
        exact hn (List.mem_of_getElem? h)
      rw [beq_false_of_ne hne, ih hnodup h, Nat.add_right_comm, Nat.add_assoc]

/-- Every function is found under its name, and it belongs to the new frame. -/
theorem lookup_withProcedures (hnames : (made.map (·.name)).Nodup) (hp : p ∈ made) :
    ∃ id, (s.withProcedures f made []).lookup s.frames.size p.name = .ok (.closure id) ∧
      (s.withProcedures f made []).closures[id]? = some (p.closure s.frames.size) := by
  obtain ⟨i, hi⟩ := List.mem_iff_getElem?.1 hp
  have hlt : i < made.length := (List.getElem?_eq_some_iff.1 hi).1
  have hname : (made.map (·.name))[i]? = some p.name := by rw [List.getElem?_map, hi]; rfl
  have hown : (s.withProcedures f made []).ownCell? s.frames.size p.name =
      some (s.cells.size + i) := by
    simpa [ownCell?, withProcedures, Frame.cell?] using lookup_zipIdx hnames hname
  have hcell : (s.withProcedures f made []).cell (s.cells.size + i) =
      .closure (s.closures.size + i) := by
    simp [cell, withProcedures, Array.getD_eq_getD_getElem?, hlt]
  refine ⟨s.closures.size + i, ?_, ?_⟩
  · rw [lookup, findCell?_of_ownCell? hown]
    simp only [hcell]
  · simp [withProcedures, Array.getElem?_append, hi]

end Store

variable {style : Style} {limit limit' : Nat} {ev : Evaluator} {f : FrameId} {m : Machine}
  {s : Store} {v : Value} {p : Procedure} {ps made : List Procedure} {b : String × Value}
  {bindings : List (String × Value)} {definitions body : List Value}

/-! ## Making the functions -/

theorem Procedure.map_fst_eq (hps : List.Forall₂ Procedure.Bound ps bindings) :
    bindings.map Prod.fst = ps.map (·.name) := by
  induction hps with
  | nil => rfl
  | cons hp _ ih => rw [List.map_cons, List.map_cons, hp.1, ih]

theorem Procedure.Bound.initialiser (h : p.Bound b) (f : FrameId) :
    (do Action.named (← evaluate style (limit + 1) f b.2) b.1) =
      Action.updating (·.newClosure (p.closure f)) := by
  obtain ⟨hname, params, hlambda, hparams⟩ := h
  funext m
  have hnamed := m.store.nameClosure_newClosure ⟨p.params.map .symbol, p.body, f, none⟩ p.name
  rw [evaluate, step_lambda hlambda hparams, hname]
  exact congrArg (fun s => EStateM.Result.ok _ { m with store := s }) hnamed

namespace Form

theorem initialise_cons (c : CellId) (cells : List CellId) (b : String × Value)
    (bindings : List (String × Value)) :
    initialise ev f (c :: cells) (b :: bindings) = (do
      let v ← (do Action.named (← ev f b.2) b.1)
      Action.updating fun s => ((), s.setCell c v)
      initialise ev f cells bindings) := by
  simp [initialise]

theorem sequence_append (before : List Value) (hbody : body ≠ []) :
    sequence ev f (before ++ body) = (do let _ ← sequence ev f before; sequence ev f body) := by
  obtain ⟨expr, body, rfl⟩ := List.exists_cons_of_ne_nil hbody
  simp [sequence]

theorem mapM_declare_withProcedures (declared : List String)
    (hnames : (declared ++ bindings.map Prod.fst).Nodup) :
    (bindings.mapM fun (b : String × Value) => Action.updating (·.declare s.frames.size b.1))
        { m with store := s.withProcedures f [] declared } =
      .ok (List.range' (s.cells.size + declared.length) bindings.length)
        { m with store := s.withProcedures f [] (declared ++ bindings.map Prod.fst) } := by
  induction bindings generalizing declared with
  | nil =>
    rw [List.map_nil, List.append_nil]
    rfl
  | cons b bindings ih =>
    have hname : b.1 ∉ declared := fun hmem =>
      (List.nodup_append.1 hnames).2.2 b.1 hmem b.1 List.mem_cons_self rfl
    have hrest : ((declared ++ [b.1]) ++ bindings.map Prod.fst).Nodup := by simpa using hnames
    have hdeclare : Action.updating (·.declare s.frames.size b.1)
        { m with store := s.withProcedures f [] declared } =
          .ok (s.cells.size + declared.length)
            { m with store := s.withProcedures f [] (declared ++ [b.1]) } :=
      Action.updating_of_eq (Store.declare_withProcedures hname)
    have hih := ih _ hrest
    rw [List.length_append, List.length_singleton, ← Nat.add_assoc, ← List.append_cons] at hih
    rw [List.mapM_cons, bind_of_eq_ok hdeclare, bind_of_eq_ok hih, List.length_cons,
      List.range'_succ]
    rfl

theorem initialise_procedures (hps : List.Forall₂ Procedure.Bound ps bindings)
    (made : List Procedure) :
    initialise (evaluate style (limit + 1)) s.frames.size
        (List.range' (s.cells.size + made.length) ps.length) bindings
        { m with store := s.withProcedures f made (ps.map (·.name)) } =
      .ok () { m with store := s.withProcedures f (made ++ ps) [] } := by
  induction hps generalizing made with
  | nil =>
    rw [List.append_nil]
    rfl
  | @cons p b ps bindings hp hps ih =>
    have hih := ih (made ++ [p])
    rw [List.length_append, List.length_singleton, ← Nat.add_assoc, ← List.append_cons,
      ← Store.initialise_withProcedures] at hih
    rw [List.length_cons, List.range'_succ, initialise_cons, hp.initialiser]
    exact hih

theorem evaluate_definition (hp : p.Bound b) (hv : v.Defines b)
    (hname : p.name ∉ made.map (·.name)) :
    evaluate style (limit + 2) s.frames.size v { m with store := s.withProcedures f made [] } =
      .ok (.symbol p.name) { m with store := s.withProcedures f (made ++ [p]) [] } := by
  rw [evaluate, step_form hv, Form.eval, evalDefine_symbol, hp.initialiser, hp.1,
    ← Store.define_withProcedures hname]
  rfl

theorem sequence_definitions (hdefinitions : List.Forall₂ Value.Defines definitions bindings)
    (hps : List.Forall₂ Procedure.Bound ps bindings) (made : List Procedure)
    (hnames : ((made ++ ps).map (·.name)).Nodup) (last : Value) :
    ∃ w, definitions.foldlM (fun _ expr => evaluate style (limit + 2) s.frames.size expr) last
      { m with store := s.withProcedures f made [] } =
        .ok w { m with store := s.withProcedures f (made ++ ps) [] } := by
  induction hdefinitions generalizing made last ps with
  | nil =>
    cases hps
    exact ⟨last, by rw [List.append_nil]; rfl⟩
  | cons hv hdefinitions ih =>
    cases hps with
    | @cons p b ps bindings hp hps =>
      have hname : p.name ∉ made.map (·.name) := by
        rw [List.map_append] at hnames
        exact fun hmem => (List.nodup_append.1 hnames).2.2 _ hmem _ List.mem_cons_self rfl
      rw [List.append_cons] at hnames ⊢
      obtain ⟨w, hw⟩ := ih hps (made ++ [p]) hnames (.symbol p.name)
      refine ⟨w, ?_⟩
      rw [List.foldlM_cons, bind_of_eq_ok (evaluate_definition hp hv hname)]
      exact hw

end Form

/-! ## Side by side -/

theorem newFrame_eq_withProcedures (f : FrameId) (m : Machine) :
    Action.newFrame f m =
      .ok m.store.frames.size { m with store := m.store.withProcedures f [] [] } :=
  Action.updating_of_eq (by simp [Store.newFrame, Store.withProcedures])

section SideBySide

variable {recursive block : Value} (hps : List.Forall₂ Procedure.Bound ps bindings)
  (hnames : (ps.map (·.name)).Nodup)
include hps hnames

theorem letRecFrame_procedures (f : FrameId) (m : Machine) :
    Form.letRecFrame (evaluate style (limit + 1)) f bindings m =
      .ok m.store.frames.size { m with store := m.store.withProcedures f ps [] } := by
  have hdeclare : Form.declareFrame f bindings m =
      .ok (m.store.frames.size, List.range' m.store.cells.size ps.length)
        { m with store := m.store.withProcedures f [] (ps.map (·.name)) } := by
    have hcells := Form.mapM_declare_withProcedures (m := m) (s := m.store) (f := f) []
      (Procedure.map_fst_eq hps ▸ hnames)
    rw [Procedure.map_fst_eq hps, ← hps.length_eq] at hcells
    exact (bind_of_eq_ok (newFrame_eq_withProcedures f m)).trans (bind_of_eq_ok hcells)
  have hmade : Form.initialise (evaluate style (limit + 1)) m.store.frames.size
      (List.range' m.store.cells.size ps.length) bindings
      { m with store := m.store.withProcedures f [] (ps.map (·.name)) } =
        .ok () { m with store := m.store.withProcedures f ps [] } :=
    Form.initialise_procedures hps []
  exact (bind_of_eq_ok hdeclare).trans (bind_of_eq_ok hmade)

theorem evaluate_letRec_procedures (hrecursive : recursive.Binds .letRec bindings body)
    (f : FrameId) (m : Machine) :
    evaluate style (limit + 2) f recursive m =
      Form.sequence (evaluate style (limit + 1)) m.store.frames.size body
        { m with store := m.store.withProcedures f ps [] } := by
  rw [evaluate, step_letRec hrecursive]
  exact bind_of_eq_ok (letRecFrame_procedures hps hnames f m)

theorem evaluate_let_definitions (hdefinitions : List.Forall₂ Value.Defines definitions bindings)
    (hblock : block.Binds .letIn [] (definitions ++ body)) (hbody : body ≠ []) (f : FrameId)
    (m : Machine) :
    evaluate style (limit + 3) f block m =
      Form.sequence (evaluate style (limit + 2)) m.store.frames.size body
        { m with store := m.store.withProcedures f ps [] } := by
  have hmade : ∃ w, Form.sequence (evaluate style (limit + 2)) m.store.frames.size definitions
      { m with store := m.store.withProcedures f [] [] } =
        .ok w { m with store := m.store.withProcedures f ps [] } :=
    Form.sequence_definitions hdefinitions hps [] hnames .nil
  obtain ⟨w, hw⟩ := hmade
  rw [evaluate, step_let hblock, Form.letFrame_nil, bind_of_eq_ok (newFrame_eq_withProcedures f m),
    Form.sequence_append _ hbody]
  exact bind_of_eq_ok hw

end SideBySide

/-- A `letrec` of functions with distinct names and a block that starts with their definitions
evaluate their bodies in the same new frame: it binds the names in order, each to its function,
which belongs to that frame. Unless one of them fails for its depth, both have the same outcome, the
store, the output and the source included. -/
theorem letRec_eq_definitions {recursive block : Value}
    (hps : List.Forall₂ Procedure.Bound ps bindings) (hnames : (ps.map (·.name)).Nodup)
    (hdefinitions : List.Forall₂ Value.Defines definitions bindings)
    (hrecursive : recursive.Binds .letRec bindings body)
    (hblock : block.Binds .letIn [] (definitions ++ body)) (hbody : body ≠ []) :
    (∀ style limit f m,
      let inner := m.store.frames.size
      let m' := { m with store := m.store.withProcedures f ps [] }
      evaluate style (limit + 2) f recursive m =
          Form.sequence (evaluate style (limit + 1)) inner body m' ∧
        evaluate style (limit + 3) f block m =
          Form.sequence (evaluate style (limit + 2)) inner body m' ∧
        m'.store.frames[inner]? = some ⟨(ps.map (·.name)).zipIdx m.store.cells.size, some f⟩ ∧
        ∀ p ∈ ps, ∃ id, m'.store.lookup inner p.name = .ok (.closure id) ∧
          m'.store.closures[id]? = some (p.closure inner)) ∧
      ∀ style limit limit' f m, (∀ m', evaluate style limit f recursive m ≠ .error .tooDeep m') →
        (∀ m', evaluate style limit' f block m ≠ .error .tooDeep m') →
        evaluate style limit' f block m = evaluate style limit f recursive m := by
  refine ⟨?_, ?_⟩
  · intro style limit f m inner m'
    refine ⟨evaluate_letRec_procedures hps hnames hrecursive f m,
      evaluate_let_definitions hps hnames hdefinitions hblock hbody f m, ?_,
      fun p hp => Store.lookup_withProcedures hnames hp⟩
    simp [inner, m', Store.withProcedures]
  · intro style limit limit' f m h h'
    -- With enough room for both, the bodies differ in what room they have, and are not too deep.
    obtain ⟨room, hroom, hroom'⟩ : ∃ room, limit ≤ room + 2 ∧ limit' ≤ room + 3 :=
      ⟨limit + limit', by omega, by omega⟩
    have hwide := evaluate_eq_of_le hroom h
    have hbodies := tracks_iff_couples.2 <|
      (lawful_tooDeep style (Nat.le_succ (room + 1))).sequence
        (tracks_evaluate style (Nat.le_succ (room + 1))).couples m.store.frames.size body
    calc evaluate style limit' f block m
      _ = evaluate style (room + 3) f block m := (evaluate_eq_of_le hroom' h').symm
      _ = Form.sequence (evaluate style (room + 2)) m.store.frames.size body
          { m with store := m.store.withProcedures f ps [] } :=
        evaluate_let_definitions hps hnames hdefinitions hblock hbody f m
      _ = Form.sequence (evaluate style (room + 1)) m.store.frames.size body
          { m with store := m.store.withProcedures f ps [] } := by
        refine hbodies.eq_of_ne_tooDeep ?_
        rw [← evaluate_letRec_procedures hps hnames hrecursive f m, hwide]
        exact h
      _ = evaluate style (room + 2) f recursive m :=
        (evaluate_letRec_procedures hps hnames hrecursive f m).symm
      _ = evaluate style limit f recursive m := hwide

/-- Two functions call one another, and the first one, which is called with true, comes back to
itself with false. -/
theorem letRec_eq_definitions_mutual :
    let m : Machine := ⟨(Store.empty.newFrame none).2, .ofString "", ""⟩
    let list (items : List Value) : Value := .listTo 0 items .nil
    let call (name : String) (v : Value) : Value := list [.symbol name, v]
    let lambda (p : Procedure) : Value :=
      list (.symbol "lambda" :: list (p.params.map .symbol) :: p.body)
    let definition (p : Procedure) : Value := list [.symbol "define", .symbol p.name, lambda p]
    let ps : List Procedure :=
      [⟨"f", ["x"], [list [.symbol "if", .symbol "x", call "g" (.bool false), .int 1]]⟩,
        ⟨"g", ["x"], [call "f" (.symbol "x")]⟩]
    let body := [call "f" (.bool true)]
    let bindings := ps.map fun p => (p.name, lambda p)
    let recursive := Value.ofBindings .letRec bindings body
    let block := Value.ofBindings .letIn [] (ps.map definition ++ body)
    (∀ m', evaluate .plain 9 0 recursive m ≠ .error .tooDeep m') ∧
      (∀ m', evaluate .plain 9 0 block m ≠ .error .tooDeep m') ∧
      evaluate .plain 9 0 block m = evaluate .plain 9 0 recursive m ∧
      (failureOf (evaluate .plain 9 0 recursive m)).isNone := by
  intro m list call lambda definition ps body bindings recursive block
  have hps : List.Forall₂ Procedure.Bound ps bindings :=
    .cons ⟨rfl, _, rfl, rfl, by decide⟩ (.cons ⟨rfl, _, rfl, rfl, by decide⟩ .nil)
  have hdefinitions : List.Forall₂ Value.Defines (ps.map definition) bindings :=
    .cons rfl (.cons rfl .nil)
  have hsame := letRec_eq_definitions hps (by decide) hdefinitions
    (Value.binds_ofBindings .letRec bindings body) (Value.binds_ofBindings ..) nofun
  have h : ∀ m', evaluate .plain 9 0 recursive m ≠ .error .tooDeep m' :=
    ne_tooDeep_of_failureOf (by decide +kernel)
  have h' : ∀ m', evaluate .plain 9 0 block m ≠ .error .tooDeep m' :=
    ne_tooDeep_of_failureOf (by decide +kernel)
  exact ⟨h, h', hsame.2 .plain 9 9 0 m h h', by decide +kernel⟩

end Keel
