import Keel.Proofs.Discipline.Lasting
import Keel.Proofs.Initialisation.Store
import Keel.Proofs.LetForms.Recursion

/-! # Parameters

A call binds the formals of a function to its arguments by definitions in a new frame,
and a definition overwrites what its frame binds already. No argument is lost in this
way: the formals of all functions are distinct symbols, whichever form has made them.
The two ways to define a function are the same.
-/

namespace Keel

/-- The value is written as the definition of a function by its name, parameters and body. -/
def Value.DefinesFunction (v : Value) (name : String) (params : Value) (body : List Value) : Prop :=
  ∃ id, v.toList? = some (.symbol Form.define.name :: .pair id (.symbol name) params :: body)

/-- The value is written as the definition of a name with a `lambda`. -/
def Value.DefinesLambda (v : Value) (name : String) (params : Value) (body : List Value) : Prop :=
  ∃ fn, v.Defines (name, fn) ∧ fn.toList? = some (.symbol Form.lambda.name :: params :: body)

namespace Store

variable {s : Store} {f : FrameId} {names : List String} {args : List Value} {name : String}
  {v : Value}

/-- The formals of all closures are distinct symbols. -/
def Proper (s : Store) : Prop :=
  ∀ (id : ClosureId) (c : Closure), s.closures[id]? = some c → ∃ names, c.Takes names

theorem Proper.lasting : Lasting Proper where
  empty id c h := by simp [empty] at h
  renumber _ hs := hs
  newFrame _ hs := hs
  setCell _ _ hs := hs
  declare _ _ hs := hs
  define f name v hs id c h := by
    rw [closures_define] at h
    exact hs id c h
  newClosure hs hc id c h := by
    rcases of_closures_newClosure h with rfl | hold
    · exact ⟨_, hc⟩
    · exact hs id c hold
  nameClosure v name hs id c h := by
    obtain ⟨c, name, hold, rfl⟩ := of_closures_nameClosure h
    obtain ⟨names, htakes⟩ := hs id c hold
    exact ⟨names, htakes.formals_eq, htakes.nodup⟩

/-! ## Binding arguments -/

/-- The store with one more frame, in which the names are bound in order to new cells with the
arguments. -/
def withArguments (f : FrameId) (names : List String) (args : List Value) (s : Store) : Store where
  frames := s.frames.push ⟨names.zipIdx s.cells.size, some f⟩
  cells := s.cells ++ args.toArray
  closures := s.closures
  nextId := s.nextId

theorem define_withArguments (hname : name ∉ names) (hlength : args.length = names.length) :
    ((s.withArguments f names args).define s.frames.size name v).2 =
      s.withArguments f (names ++ [name]) (args ++ [v]) := by
  have hown : (s.withArguments f names args).ownCell? s.frames.size name = none := by
    simpa [ownCell?, withArguments] using cell?_zipIdx hname
  have hsize : (s.withArguments f names args).cells.size = s.cells.size + names.length := by
    simp [withArguments, hlength]
  rw [define_of_eq_none hown, bindNew, hsize]
  simp [withArguments, newCell, modify_push, bind_zipIdx hname]

/-- Every name has a cell of its own in the new frame, which holds its argument. -/
theorem ownCell?_withArguments {i : Nat} (hnodup : names.Nodup) (hname : names[i]? = some name)
    (harg : args[i]? = some v) :
    ∃ c, (s.withArguments f names args).ownCell? s.frames.size name = some c ∧
      (s.withArguments f names args).cells[c]? = some v := by
  refine ⟨s.cells.size + i, ?_, ?_⟩
  · simpa [ownCell?, withArguments, Frame.cell?] using lookup_zipIdx hnodup hname
  · simpa [withArguments, Array.getElem?_append] using harg

/-! ## Names in the new frame and in older ones -/

theorem cell_withArguments {c : CellId} (hc : s.cell c ≠ .absent) :
    (s.withArguments f names args).cell c = s.cell c := by
  have hlt : c < s.cells.size := by
    refine Nat.lt_of_not_le fun hle => hc ?_
    simp [cell, Array.getD_eq_getD_getElem?, Array.getElem?_eq_none hle]
  simp [cell, withArguments, Array.getD_eq_getD_getElem?, Array.getElem?_append, hlt]

theorem findCell?_withArguments_of_lt {g : FrameId} (hg : g < s.frames.size) :
    (s.withArguments f names args).findCell? g name = s.findCell? g name := by
  refine findCell?_congr_of_le (fun h hle => ?_) name
  have hlt : h < s.frames.size := Nat.lt_of_le_of_lt hle hg
  simp [withArguments, Array.getElem?_push, Nat.ne_of_lt hlt]

theorem lookup_withArguments_of_lt {g : FrameId} (hg : g < s.frames.size)
    (h : s.lookup g name = .ok v) : (s.withArguments f names args).lookup g name = .ok v := by
  obtain ⟨c, hc, rfl, hv⟩ := lookup_eq_ok h
  exact lookup_of_findCell? ((findCell?_withArguments_of_lt hg).trans hc) (cell_withArguments hv) hv

theorem lookup_withArguments {i : Nat} (hnodup : names.Nodup) (hname : names[i]? = some name)
    (harg : args[i]? = some v) (hv : v ≠ .absent) :
    (s.withArguments f names args).lookup s.frames.size name = .ok v := by
  obtain ⟨c, hc, hcell⟩ := ownCell?_withArguments (s := s) (f := f) hnodup hname harg
  refine lookup_of_findCell? (findCell?_of_ownCell? hc) ?_ hv
  rw [cell, Array.getD_eq_getD_getElem?, hcell, Option.getD_some]

theorem lookup_withArguments_of_notMem (hf : f < s.frames.size) (hname : name ∉ names)
    (h : s.lookup f name = .ok v) :
    (s.withArguments f names args).lookup s.frames.size name = .ok v := by
  have hown : (s.withArguments f names args).ownCell? s.frames.size name = none := by
    simpa [ownCell?, withArguments] using cell?_zipIdx hname
  have houter : (s.withArguments f names args).outer? s.frames.size = some ⟨f, hf⟩ := by
    simp [outer?, withArguments, hf]
  have houtside : (s.withArguments f names args).lookup f name = .ok v :=
    lookup_withArguments_of_lt hf h
  rw [lookup] at houtside ⊢
  rwa [findCell?, hown, houter]

end Store

variable {style : Style} {limit : Nat} {ev : Evaluator} {f : FrameId} {m m' : Machine}
  {c : Closure} {names : List String} {args body : List Value} {name : String}
  {params v x : Value}

/-- Formals are bound one after the other, and none of them is bound already. -/
theorem forM_define_withArguments {s : Store} (before : List String) (given : List Value)
    (hnodup : (before ++ names).Nodup) (hgiven : given.length = before.length)
    (hargs : args.length = names.length) :
    (((names.map Value.symbol).zip args).forM fun (formal, arg) =>
        discard (Scope.define limit s.frames.size formal arg) : Action Unit)
        { m with store := s.withArguments f before given } =
      .ok () { m with store := s.withArguments f (before ++ names) (given ++ args) } := by
  induction names generalizing before given args with
  | nil =>
    obtain rfl : args = [] := List.eq_nil_of_length_eq_zero hargs
    rw [List.append_nil, List.append_nil]
    rfl
  | cons name names ih =>
    obtain ⟨arg, args, rfl⟩ := List.exists_cons_of_length_eq_add_one hargs
    have hname : name ∉ before := fun hmem =>
      (List.nodup_append.1 hnodup).2.2 name hmem name List.mem_cons_self rfl
    have hdefine : discard (Scope.define limit s.frames.size (.symbol name) arg)
        { m with store := s.withArguments f before given } =
          .ok () { m with store := s.withArguments f (before ++ [name]) (given ++ [arg]) } := by
      rw [← Store.define_withArguments hname hgiven]
      rfl
    rw [List.append_cons] at hnodup
    have hrest := ih (before ++ [name]) (given ++ [arg]) hnodup (by simp [hgiven])
      (Nat.succ.inj hargs)
    rw [List.append_cons before, List.append_cons given, ← hrest]
    exact bind_of_eq_ok hdefine

namespace Closure

theorem call_of_length_ne (h : args.length ≠ c.formals.length) :
    c.call limit ev args m =
      .error (.misuse (.wrongCount ((c.name.filter (· ≠ "")).getD "lambda") c.formals.length
        args.length)) m := by
  rw [call, if_neg h]
  split
  · next hname =>
    rw [hname]
    rfl
  · next hname =>
    rw [hname]
    rfl
  · next name hne hname =>
    have hkept : (some name).filter (· ≠ "") = some name := by
      simpa [Option.filter_eq_some_iff] using hne
    rw [hname, hkept]
    rfl

theorem Takes.call_eq (h : c.Takes names) (hlength : args.length = names.length) :
    c.call limit ev args m = Form.sequence ev m.store.frames.size c.body
      { m with store := m.store.withArguments c.frame names args } := by
  have hcount : args.length = c.formals.length := by rw [h.formals_eq, List.length_map, hlength]
  have hframe : Action.newFrame c.frame m =
      .ok m.store.frames.size { m with store := m.store.withArguments c.frame [] [] } :=
    Action.updating_of_eq (by simp [Store.newFrame, Store.withArguments])
  have hbound : (((names.map Value.symbol).zip args).forM fun (formal, arg) =>
        discard (Scope.define limit m.store.frames.size formal arg) : Action Unit)
        { m with store := m.store.withArguments c.frame [] [] } =
      .ok () { m with store := m.store.withArguments c.frame names args } :=
    forM_define_withArguments [] [] h.nodup rfl hlength
  rw [call, if_pos hcount, h.formals_eq]
  exact (bind_of_eq_ok hframe).trans (bind_of_eq_ok hbound)

end Closure

/-! ## Defining functions -/

def Procedure.define (p : Procedure) (f : FrameId) : Action Value := do
  Action.define f p.name (← Action.updating (·.newClosure (p.closure f)))
  return .symbol p.name

theorem Form.exists_parameters_of_eq_ok {form : Form} {formals : List Value}
    (h : parameters limit form params m = .ok formals m') :
    ∃ names, params.Parameters names := by
  obtain ⟨items, m₁, hitems, h⟩ := exists_of_bind_eq_ok h
  cases hparams : params.toList? with
  | none =>
    rw [Action.properList, hparams] at hitems
    cases hitems
  | some items' =>
    rw [Action.properList, hparams] at hitems
    obtain ⟨rfl, rfl⟩ := EStateM.Result.ok.inj hitems
    cases hfind : items'.find? (!·.isSymbol) with
    | some formal =>
      simp only [hfind] at h
      obtain ⟨_, _, -, h⟩ := exists_of_bind_eq_ok h
      cases h
    | none =>
      have hsymbols : ∀ x ∈ items', x.isSymbol = true := by
        simpa using List.find?_eq_none.1 hfind
      obtain ⟨names, rfl⟩ := Value.exists_map_symbol hsymbols
      simp only [hfind] at h
      split at h
      · next hnodup => exact ⟨names, hparams, hnodup.of_map _⟩
      · cases h

namespace Value

theorem DefinesFunction.evaluate_eq (h : v.DefinesFunction name params body)
    (hparams : params.Parameters names) :
    evaluate style (limit + 1) f v = Procedure.define ⟨name, names, body⟩ f := by
  obtain ⟨id, hv⟩ := h
  rw [evaluate, step_form hv, Form.eval, Form.evalDefine, Form.parameters_eq _ hparams, pure_bind]
  rfl

/-- The definition of a function makes the function if the parameters are distinct symbols. -/
theorem DefinesFunction.evaluate_eq_ok_iff (h : v.DefinesFunction name params body) :
    evaluate style (limit + 1) f v m = .ok x m' ↔
      ∃ names, params.Parameters names ∧ Procedure.define ⟨name, names, body⟩ f m = .ok x m' := by
  have ⟨_, hv⟩ := h
  constructor
  · intro hx
    have hdefine := hx
    rw [evaluate, step_form hv] at hdefine
    obtain ⟨formals, m₁, hformals, -⟩ := exists_of_bind_eq_ok hdefine
    obtain ⟨names, hparams⟩ := Form.exists_parameters_of_eq_ok hformals
    exact ⟨names, hparams, h.evaluate_eq hparams ▸ hx⟩
  · rintro ⟨names, hparams, hx⟩
    rwa [h.evaluate_eq hparams]

/-- So does the definition with a `lambda`: what that makes has no name yet, and gets this one. -/
theorem DefinesLambda.evaluate_eq_ok_iff (h : v.DefinesLambda name params body) :
    evaluate style (limit + 2) f v m = .ok x m' ↔
      ∃ names, params.Parameters names ∧ Procedure.define ⟨name, names, body⟩ f m = .ok x m' := by
  obtain ⟨fn, hv, hfn⟩ := h
  have hmade : ∀ names, params.Parameters names →
      evaluate style (limit + 2) f v = Procedure.define ⟨name, names, body⟩ f := by
    intro names hparams
    have hbound : Procedure.Bound ⟨name, names, body⟩ (name, fn) := ⟨rfl, params, hfn, hparams⟩
    rw [evaluate, step_form hv, Form.eval, Form.evalDefine_symbol, hbound.initialiser]
    simp only [Procedure.define]
  constructor
  · intro hx
    have hdefine := hx
    rw [evaluate, step_form hv, Form.eval, Form.evalDefine_symbol] at hdefine
    obtain ⟨_, _, hnamed, -⟩ := exists_of_bind_eq_ok hdefine
    obtain ⟨_, _, hlambda, -⟩ := exists_of_bind_eq_ok hnamed
    rw [evaluate, step_form hfn] at hlambda
    obtain ⟨formals, m₁, hformals, -⟩ := exists_of_bind_eq_ok hlambda
    obtain ⟨names, hparams⟩ := Form.exists_parameters_of_eq_ok hformals
    exact ⟨names, hparams, hmade names hparams ▸ hx⟩
  · rintro ⟨names, hparams, hx⟩
    rwa [hmade names hparams]

end Value

/-- The formals of all closures are distinct symbols: in a session, whatever it has been asked for,
and on the machines at all evaluations and calls that take place meanwhile. So a call of a function
is refused if the numbers differ, and nothing has happened then; otherwise the body is evaluated in
a new frame, inside the one that the function was made in, where each formal has a cell of its own
with its argument, in order, and nothing else is bound. A function may be defined by its name, its
parameters and its body, or as a `lambda`: both succeed where the parameters are a list of distinct
symbols, they give the name, and the machines are the same. -/
theorem parameters_bind_one_to_one :
    (∀ (source : Source) (deeds : List (Setup × Session.Deed)),
      let last := (Session.start source).afterAll deeds
      last.machine.store.Proper ∧
      ∀ setup deed e p, last.Starts setup e deed → e.Involves setup.style p →
        p.machine.store.Proper ∧ (p.after setup.style).store.Proper ∧
          ∀ fn args m, p.Calls setup.style fn args m → m.store.Proper) ∧
    (∀ (style : Style) (limit : Nat) (ev : Evaluator) (m : Machine) (id : ClosureId) (c : Closure)
      (args : List Value), m.store.Proper → m.store.closures[id]? = some c →
      ∃ names, c.Takes names ∧
        (args.length ≠ names.length → (Value.closure id).call style limit ev args m =
          .error (.misuse (.wrongCount ((c.name.filter (· ≠ "")).getD "lambda") names.length
            args.length)) m) ∧
        (args.length = names.length →
          let store := m.store.withArguments c.frame names args
          (Value.closure id).call style limit ev args m =
            Form.sequence ev m.store.frames.size c.body { m with store := store } ∧
          ∀ (i : Nat) (name : String) (arg : Value), names[i]? = some name → args[i]? = some arg →
            ∃ cell, store.ownCell? m.store.frames.size name = some cell ∧
              store.cells[cell]? = some arg)) ∧
    ∀ (style : Style) (limit limit' : Nat) (f : FrameId) (m : Machine) (name : String)
      (params : Value) (body : List Value) (short long : Value),
      short.DefinesFunction name params body → long.DefinesLambda name params body →
      (∀ v m', evaluate style (limit + 1) f short m = .ok v m' ↔
        evaluate style (limit' + 2) f long m = .ok v m') ∧
      (∀ v m', evaluate style (limit + 1) f short m = .ok v m' → v = .symbol name) ∧
      ((∃ v m', evaluate style (limit + 1) f short m = .ok v m') ↔
        ∃ names, params.Parameters names) := by
  refine ⟨fun source deeds => ?_, fun style limit ev m id c args hm hc => ?_,
    fun style limit limit' f m name params body short long hshort hlong => ?_⟩
  · intro last
    have hlast : last.machine.store.Proper := Store.Proper.lasting.afterAll source deeds
    refine ⟨hlast, fun setup deed e p hstarts hp => ?_⟩
    have he : e.machine.store.Proper := Store.Proper.lasting.of_starts hlast hstarts
    have hproper : p.machine.store.Proper := Store.Proper.lasting.of_involves he hp
    exact ⟨hproper, Store.Proper.lasting.after hproper setup.style,
      fun fn args m hcall => Store.Proper.lasting.of_calls hproper hcall⟩
  · obtain ⟨names, htakes⟩ := hm id c hc
    have hcount : c.formals.length = names.length := by rw [htakes.formals_eq, List.length_map]
    refine ⟨names, htakes, fun hne => ?_, fun heq => ⟨?_, fun i name arg hname harg => ?_⟩⟩
    · rw [Value.call_of_eq_some hc, Closure.call_of_length_ne (by rwa [hcount]), hcount]
    · rw [Value.call_of_eq_some hc, htakes.call_eq heq]
    · exact Store.ownCell?_withArguments htakes.nodup hname harg
  · refine ⟨fun v m' => ?_, fun v m' h => ?_, ?_, ?_⟩
    · rw [hshort.evaluate_eq_ok_iff, hlong.evaluate_eq_ok_iff]
    · obtain ⟨names, -, hmade⟩ := hshort.evaluate_eq_ok_iff.1 h
      exact (EStateM.Result.ok.inj hmade).1.symm
    · rintro ⟨v, m', h⟩
      obtain ⟨names, hparams, -⟩ := hshort.evaluate_eq_ok_iff.1 h
      exact ⟨names, hparams⟩
    · rintro ⟨names, hparams⟩
      exact ⟨_, _, hshort.evaluate_eq_ok_iff.2 ⟨names, hparams, rfl⟩⟩

/-- A session has defined a function of two parameters and calls it: it gives its first argument,
and would have refused to be called with one. A parameter that is repeated is refused in both ways
to define a function. -/
theorem parameters_bind_one_to_one_first :
    let setup : Setup := ⟨.plain, 136, false⟩
    let last := (Session.start (.ofString "(define (f x y) x) (f 1 2)")).afterAll [(setup, .form)]
    let repeated : Value := .listTo 0 [.symbol "x", .symbol "x"] .nil
    let short : Value := .listTo 0 [.symbol "define", .pair 0 (.symbol "g") repeated, .nil] .nil
    let fn : Value := .listTo 0 [.symbol "lambda", repeated, .nil] .nil
    let long : Value := .listTo 0 [.symbol "define", .symbol "g", fn] .nil
    (∃ e m m', last.Starts setup e .form ∧ e.Calls .plain (.closure 0) [.int 1, .int 2] m ∧
      e.outcome .plain = .ok (.int 1) m' ∧
      (Value.closure 0).call .plain 8 (evaluate .plain 8) [.int 1] m =
        .error (.misuse (.wrongCount "f" 2 1)) m) ∧
    ∀ v m', evaluate .plain 3 0 short last.machine ≠ .ok v m' ∧
      evaluate .plain 3 0 long last.machine ≠ .ok v m' := by
  intro setup last repeated short fn long
  obtain ⟨hsession, hcall, hdefine⟩ := parameters_bind_one_to_one
  constructor
  · let d : Datum := .pair (.symbol "f") (.pair (.int 1) (.pair (.int 2) .nil))
    let rest : Source := ⟨none, [], 1⟩
    let m : Machine := ⟨(last.machine.store.load d).2, rest, last.machine.output⟩
    let e : Evaluation := ⟨9, last.root, (last.machine.store.load d).1, m⟩
    have hstarts : last.Starts setup e .form := by
      have hsource : last.machine.source = ⟨none, " (f 1 2)".toList, 1⟩ := by decide +kernel
      have hread : Datum.read setup.reading last.machine.source = (.ok d, rest) := by
        rw [hsource]
        cbv
      have hroom : setup.evaluating = 9 := by decide
      exact .form hread rfl (by rw [Session.evaluation, hroom]; rfl)
    have hoperator : evaluate .plain 8 last.root (.symbol "f") m = .ok (.closure 0) m := by
      have hf : m.store.lookup last.root "f" = .ok (.closure 0) := by decide +kernel
      exact congrArg (Action.ofExcept · m) hf
    have hcalls : e.Calls .plain (.closure 0) [.int 1, .int 2] m :=
      .application rfl rfl hoperator rfl
    have hm : m.store.Proper :=
      ((hsession _ _).2 setup .form e e hstarts (e.involves_self _)).2.2 _ _ m hcalls
    have hc : m.store.closures[0]? =
        some ⟨[.symbol "x", .symbol "y"], [.symbol "x"], 0, some "f"⟩ := by
      decide +kernel
    have hinjective : Function.Injective (List.map Value.symbol) :=
      List.map_injective_iff.2 fun _ _ => Value.symbol.inj
    obtain ⟨names, hnames, hfew, -⟩ := hcall .plain 8 (evaluate .plain 8) m 0 _ [.int 1] hm hc
    obtain rfl : names = ["x", "y"] := hinjective hnames.formals_eq.symm
    obtain ⟨names, hnames, -, henough⟩ :=
      hcall .plain 8 (evaluate .plain 8) m 0 _ [.int 1, .int 2] hm hc
    obtain rfl : names = ["x", "y"] := hinjective hnames.formals_eq.symm
    obtain ⟨hbody, hargs⟩ := henough rfl
    obtain ⟨cell, hcell, harg⟩ := hargs 0 "x" (.int 1) rfl rfl
    let m' : Machine := { m with store := m.store.withArguments 0 ["x", "y"] [.int 1, .int 2] }
    have hvalue : evaluate .plain 8 m.store.frames.size (.symbol "x") m' = .ok (.int 1) m' := by
      have hx : m'.store.lookup m.store.frames.size "x" = .ok (.int 1) := by
        rw [Store.lookup, Store.findCell?_of_ownCell? hcell]
        simp only [Store.cell, Array.getD_eq_getD_getElem?, m', harg, Option.getD_some]
      exact congrArg (Action.ofExcept · m') hx
    have houtcome : e.outcome .plain = .ok (.int 1) m' :=
      (evaluate_application rfl rfl hoperator rfl).trans (hbody.trans (bind_of_eq_ok hvalue))
    exact ⟨e, m, m', hstarts, hcalls, houtcome, hfew (by decide)⟩
  · have hnone : ¬ ∃ names, repeated.Parameters names := by
      rintro ⟨names, htwo, hnodup⟩
      have hsymbols : [.symbol "x", .symbol "x"] = names.map Value.symbol := Option.some.inj htwo
      have hdistinct := hnodup.map fun _ _ => Value.symbol.inj
      rw [← hsymbols] at hdistinct
      exact absurd hdistinct (by decide)
    obtain ⟨hsame, -, hiff⟩ := hdefine .plain 2 1 0 last.machine "g" repeated [.nil] short long
      ⟨0, rfl⟩ ⟨fn, rfl, rfl⟩
    intro v m'
    have hshort : evaluate .plain 3 0 short last.machine ≠ .ok v m' :=
      fun h => hnone (hiff.1 ⟨v, m', h⟩)
    exact ⟨hshort, fun h => hshort ((hsame v m').2 h)⟩

end Keel
