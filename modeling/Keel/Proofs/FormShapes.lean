import Keel.Proofs.Visits

/-! # Shapes of forms

Most forms ask for operands of a certain shape, and look at the shape before anything
else. So a form that does not take its operands is refused, and nothing has happened.
A form that takes them fails only if an expression inside fails, except that an
assignment may find its name unbound.
-/

namespace Keel

/-- The forms that ask for operands of a certain shape. -/
def Form.shaped : List Form :=
  [.quote, .ifElse, .lambda, .define, .assign, .letIn, .letStar, .letRec]

/-- The operands have the shape that the form asks for. The expressions are those among them that
are evaluated with the form. -/
inductive Form.Takes : Form → (operands exprs : List Value) → Prop where
  | quote (datum : Value) : Takes .quote [datum] []
  | ifThen (test yes : Value) : Takes .ifElse [test, yes] [test, yes]
  | ifElse (test yes no : Value) : Takes .ifElse [test, yes, no] [test, yes, no]
  | lambda {params : Value} {names : List String} (body : List Value) :
    params.Parameters names → Takes .lambda (params :: body) []
  | define (name : String) (expr : Value) : Takes .define [.symbol name, expr] [expr]
  | function {params : Value} {names : List String} (id : Identity) (name : String)
    (body : List Value) :
    params.Parameters names → Takes .define (.pair id (.symbol name) params :: body) []
  | assign (name : String) (expr : Value) : Takes .assign [.symbol name, expr] [expr]
  | bindings {form : Form} {bs : Value} {bindings : List (String × Value)} (body : List Value) :
    form ∈ [.letIn, .letStar, .letRec] → bs.bindings? = some bindings →
    Takes form (bs :: body) (bindings.map Prod.snd ++ body)

/-- A pair that is no proper list, or a form that does not take its operands. -/
inductive Value.Malformed : Value → Prop where
  | improper (id : Identity) (head : Value) {tail : Value} :
    tail.toList? = none → Malformed (.pair id head tail)
  | refused (id : Identity) {form : Form} {tail : Value} {operands : List Value} :
    form ∈ Form.shaped → tail.toList? = some operands → (∀ exprs, ¬ form.Takes operands exprs) →
    Malformed (.pair id (.symbol form.name) tail)

variable {α β : Type} {style : Style} {limit : Nat} {ev : Evaluator} {f : FrameId} {m : Machine}
  {v params : Value} {form : Form} {items operands exprs body : List Value}
  {bindings : List (String × Value)}

/-! ## Parts that have a debug form -/

section DebugForms

variable {s : Store} {id : Identity} {car cdr x : Value} {text : String}

/-- Both parts of a pair have a debug form if the pair has one. -/
theorem exists_inspect_of_pair (h : s.inspect limit (.pair id car cdr) = .ok text) :
    (∃ text, s.inspect limit car = .ok text) ∧ ∃ text, s.inspect limit cdr = .ok text := by
  cases limit with
  | zero => cases h
  | succ inner =>
    have hlift : ∀ {x : Value} {text : String}, x.inspect s.closureName inner = .ok text →
        ∃ text, s.inspect (inner + 1) x = .ok text := by
      intro x text hx
      have hdeep : x.inspect s.closureName inner ≠ .error .tooDeep := by simp [hx]
      have hsame := (x.outlasts_inspect s.closureName (Nat.le_succ inner)).resolve_left hdeep
      exact ⟨text, hsame.trans hx⟩
    rw [Store.inspect, Value.inspect] at h
    cases hcar : car.inspect s.closureName inner with
    | error fault =>
      rw [hcar] at h
      cases h
    | ok first =>
      cases hcdr : cdr.inspect s.closureName inner with
      | error fault =>
        rw [hcar, hcdr] at h
        cases h
      | ok second => exact ⟨hlift hcar, hlift hcdr⟩

theorem exists_inspect_of_mem (h : ∃ text, s.inspect limit v = .ok text)
    (hitems : v.toList? = some items) (hx : x ∈ items) : ∃ text, s.inspect limit x = .ok text :=
  Value.forall_mem_of_toList? (P := fun x => ∃ text, s.inspect limit x = .ok text)
    (fun ⟨_, hpair⟩ => (exists_inspect_of_pair hpair).1)
    (fun ⟨_, hpair⟩ => (exists_inspect_of_pair hpair).2) h hitems x hx

end DebugForms

/-! ## Refusals -/

namespace Action

def Refuses (a : Action α) (m : Machine) : Prop :=
  ∃ cause, a m = .error (.misuse cause) m

theorem Refuses.bind {a : Action α} (h : a.Refuses m) (k : α → Action β) : (a >>= k).Refuses m := by
  obtain ⟨cause, h⟩ := h
  exact ⟨cause, bind_of_eq_error h⟩

theorem refuses_misuse (cause : Misuse) : (misuse cause : Action α).Refuses m :=
  ⟨cause, rfl⟩

theorem refuses_properList (construct : String) (h : v.toList? = none) :
    (properList construct v).Refuses m := by
  rw [properList, h]
  exact refuses_misuse _

theorem refuses_shown (h : ∃ text, m.store.inspect limit v = .ok text) (cause : String → Misuse) :
    (do misuse (cause (← shown limit v)) : Action α).Refuses m := by
  obtain ⟨text, htext⟩ := h
  exact ⟨cause text, bind_of_eq_ok (shown_of_inspect htext)⟩

end Action

open Keel.Action

namespace Form

theorem refuses_parameters (form : Form) (hshown : ∃ text, m.store.inspect limit params = .ok text)
    (h : ∀ names, ¬ params.Parameters names) : (parameters limit form params).Refuses m := by
  cases hitems : params.toList? with
  | none => exact (refuses_properList form.name hitems).bind _
  | some formals =>
    rw [parameters, properList_of_eq_some _ hitems, pure_bind]
    cases hfind : formals.find? (!·.isSymbol) with
    | some formal =>
      exact refuses_shown (exists_inspect_of_mem hshown hitems (List.mem_of_find?_eq_some hfind)) _
    | none =>
      have hsymbols : ∀ x ∈ formals, x.isSymbol = true := by
        simpa using List.find?_eq_none.1 hfind
      obtain ⟨names, rfl⟩ := Value.exists_map_symbol hsymbols
      have hnodup : ¬ (names.map Value.symbol).Nodup := fun hnodup =>
        h names ⟨hitems, hnodup.of_map _⟩
      simp only [if_neg hnodup]
      exact refuses_misuse _

theorem binding_of_eq_none (form : Form) (h : v.binding? = none) :
    ∃ cause, binding form v = misuse cause := by
  unfold binding
  cases hitems : v.toList? with
  | none => exact ⟨.improperList form.name, by rw [properList, hitems]; rfl⟩
  | some items =>
    rw [properList_of_eq_some _ hitems, pure_bind]
    unfold Value.binding? at h
    split
    · next name expr =>
      rw [hitems] at h
      cases h
    · exact ⟨_, rfl⟩

theorem mapM_binding_of_eq_none (form : Form) (h : items.mapM Value.binding? = none) :
    (items.mapM (binding form)).Refuses m := by
  induction items with
  | nil => exact nomatch h
  | cons x items ih =>
    rw [List.mapM_cons] at h ⊢
    cases hx : x.binding? with
    | none =>
      obtain ⟨cause, hcause⟩ := form.binding_of_eq_none hx
      rw [hcause]
      exact (refuses_misuse cause).bind _
    | some b =>
      rw [hx] at h
      have hitems : items.mapM Value.binding? = none := by
        cases hrest : items.mapM Value.binding? with
        | none => rfl
        | some rest => exact nomatch hrest ▸ h
      rw [form.binding_eq hx, pure_bind]
      exact (ih hitems).bind _

theorem refuses_bindingsAndBody (form : Form)
    (h : ∀ bs body, operands = bs :: body → bs.bindings? = none) :
    (bindingsAndBody form operands).Refuses m := by
  cases operands with
  | nil => exact refuses_misuse _
  | cons bs body =>
    have hnone := h bs body rfl
    cases hitems : bs.toList? with
    | none => exact (refuses_properList form.name hitems).bind _
    | some items =>
      rw [bindingsAndBody, properList_of_eq_some _ hitems, pure_bind]
      have hbindings : items.mapM Value.binding? = none := by
        rwa [Value.bindings?, hitems] at hnone
      exact (form.mapM_binding_of_eq_none hbindings).bind _

theorem refuses_evalQuote (h : ∀ exprs, ¬ quote.Takes operands exprs) :
    (evalQuote operands).Refuses m := by
  unfold evalQuote
  split
  · next datum => exact absurd (.quote datum) (h _)
  · exact refuses_misuse _

theorem refuses_evalIf (h : ∀ exprs, ¬ ifElse.Takes operands exprs) :
    (evalIf ev f operands).Refuses m := by
  unfold evalIf
  split
  · next test yes => exact absurd (.ifThen test yes) (h _)
  · next test yes no => exact absurd (.ifElse test yes no) (h _)
  · exact refuses_misuse _

theorem refuses_evalLet (hform : form ∈ [letIn, letStar, letRec])
    (h : ∀ exprs, ¬ form.Takes operands exprs) : (bindingsAndBody form operands).Refuses m := by
  refine form.refuses_bindingsAndBody ?_
  rintro bs body rfl
  exact Option.eq_none_iff_forall_ne_some.2 fun bindings hbs => h _ (.bindings body hform hbs)

section Shown

variable (hshown : ∀ x ∈ operands, ∃ text, m.store.inspect limit x = .ok text)
include hshown

theorem refuses_evalLambda (h : ∀ exprs, ¬ lambda.Takes operands exprs) :
    (evalLambda limit f operands).Refuses m := by
  unfold evalLambda
  split
  · exact refuses_misuse _
  · next params body =>
    have hparams := hshown params List.mem_cons_self
    exact (lambda.refuses_parameters hparams fun names hnames => h _ (.lambda body hnames)).bind _

theorem refuses_evalDefine (h : ∀ exprs, ¬ define.Takes operands exprs) :
    (evalDefine limit ev f operands).Refuses m := by
  unfold evalDefine
  split
  · next id name params body =>
    obtain ⟨text, htext⟩ := hshown _ List.mem_cons_self
    have hparams := (exists_inspect_of_pair htext).2
    exact (define.refuses_parameters hparams fun names hnames =>
      h _ (.function id name body hnames)).bind _
  · exact refuses_misuse _
  · next name expr => exact absurd (.define name expr) (h _)
  · exact refuses_shown (hshown _ List.mem_cons_self) _
  · exact refuses_misuse _

theorem refuses_evalAssign (h : ∀ exprs, ¬ assign.Takes operands exprs) :
    (evalAssign limit ev f operands).Refuses m := by
  unfold evalAssign
  split
  · next name expr => exact absurd (.assign name expr) (h _)
  · exact refuses_shown (hshown _ List.mem_cons_self) _
  · exact refuses_misuse _

theorem refuses_eval (hform : form ∈ shaped) (h : ∀ exprs, ¬ form.Takes operands exprs) :
    (form.eval limit ev f operands).Refuses m := by
  cases form with
  | quote => exact refuses_evalQuote h
  | ifElse => exact refuses_evalIf h
  | lambda => exact refuses_evalLambda hshown h
  | define => exact refuses_evalDefine hshown h
  | assign => exact refuses_evalAssign hshown h
  | letIn => exact (refuses_evalLet (by decide) h).bind _
  | letStar => exact (refuses_evalLet (by decide) h).bind _
  | letRec => exact (refuses_evalLet (by decide) h).bind _
  | cond => exact absurd hform (by decide)
  | and => exact absurd hform (by decide)
  | or => exact absurd hform (by decide)
  | begin => exact absurd hform (by decide)

end Shown

end Form

/-- What is malformed is refused, whichever evaluator there is for the expressions inside. -/
theorem refuses_step (h : v.Malformed) (hshown : ∀ items, v.toList? = some items →
    ∀ x ∈ items, ∃ text, m.store.inspect limit x = .ok text) :
    (step style limit ev f v).Refuses m := by
  cases h with
  | improper id head htail =>
    cases hhead : Form.ofHead? head with
    | some form =>
      simp only [step, hhead]
      exact (refuses_properList form.name htail).bind _
    | none =>
      simp only [step, hhead]
      exact (refuses_properList "application" htail).bind _
  | @refused id form tail operands hform htail hrefused =>
    have hv : (Value.pair id (.symbol form.name) tail).toList? =
        some (.symbol form.name :: operands) := by rw [Value.toList?, htail]; rfl
    rw [step_form hv]
    exact Form.refuses_eval (fun x hx => hshown _ hv x (List.mem_cons_of_mem _ hx)) hform hrefused

/-! ## Failures of forms that take their operands -/

namespace Form

variable {m' : Machine} {fault : Fault}

/-- One of its expressions fails, where the form comes to it. -/
theorem exists_visits_of_eval (htakes : form.Takes operands exprs) (hform : form ≠ .assign)
    (h : form.eval limit ev f operands m = .error fault m') :
    ∃ x ∈ exprs, ∃ g n, form.Visits ev f m operands x g n ∧ ev g x n = .error fault m' := by
  cases htakes with
  | quote datum => cases h
  | ifThen test yes =>
    rcases error_of_bind_eq_error h with h | ⟨v, n, htest, h⟩
    · exact ⟨test, by simp, f, m, .test test _, h⟩
    · split at h
      · next hv => exact ⟨yes, by simp, f, n, .yes yes _ htest hv, h⟩
      · cases h
  | ifElse test yes no =>
    rcases error_of_bind_eq_error h with h | ⟨v, n, htest, h⟩
    · exact ⟨test, by simp, f, m, .test test _, h⟩
    · split at h
      · next hv => exact ⟨yes, by simp, f, n, .yes yes _ htest hv, h⟩
      · next hv => exact ⟨no, by simp, f, n, .no yes no htest (Bool.eq_false_iff.2 hv), h⟩
  | lambda body hparams =>
    rw [eval, evalLambda, parameters_eq _ hparams, pure_bind] at h
    cases h
  | define name expr =>
    rw [eval, evalDefine_symbol] at h
    rcases error_of_bind_eq_error h with h | ⟨_, _, -, h⟩
    · rcases error_of_bind_eq_error h with h | ⟨_, _, -, h⟩
      · exact ⟨expr, by simp, f, m, .define name expr, h⟩
      · cases h
    · cases h
  | function id name body hparams =>
    rw [eval, evalDefine, parameters_eq _ hparams, pure_bind] at h
    cases h
  | assign => exact absurd rfl hform
  | @bindings _ bs bindings body hlet hbs =>
    have hoperands : bindingsAndBody form (bs :: body) = pure (bindings, body) :=
      form.bindingsAndBody_eq hbs
    obtain rfl | rfl | rfl : form = letIn ∨ form = letStar ∨ form = letRec := by simpa using hlet
    · rw [eval, evalLet, hoperands, pure_bind] at h
      exact exists_visits_of_body hbs letFrame_eq_error (fun _ _ => .letIn) h
    · rw [eval, evalLetStar, hoperands, pure_bind] at h
      exact exists_visits_of_body hbs letStarFrame_eq_error (fun _ _ => .letStar) h
    · rw [eval, evalLetRec, hoperands, pure_bind] at h
      exact exists_visits_of_body hbs letRecFrame_eq_error (fun _ _ => .letRec) h

/-- An assignment to a symbol fails with its expression, or the symbol is not bound when the
expression has been evaluated. -/
theorem evalAssign_eq_error {name : String} {expr : Value} {fault : Fault} {m' : Machine}
    (h : evalAssign limit ev f [.symbol name, expr] m = .error fault m') :
    ev f expr m = .error fault m' ∨ ∃ v, ev f expr m = .ok v m' ∧
      m'.store.findCell? f name = none ∧ fault = .unbound (.assigned name) := by
  rcases error_of_bind_eq_error h with h | ⟨v, m₁, hv, h⟩
  · exact .inl h
  · rcases error_of_bind_eq_error h with h | ⟨_, _, -, h⟩
    · cases hc : m₁.store.findCell? f name with
      | some c =>
        rw [assign_of_eq_some hc] at h
        exact nomatch h
      | none =>
        rw [assign_of_eq_none hc] at h
        obtain ⟨rfl, rfl⟩ := EStateM.Result.error.inj h
        exact .inr ⟨v, hv, hc, rfl⟩
    · exact nomatch h

end Form

/-- How a form that takes its operands may fail: as one of its expressions fails where the form
comes to it, and an assignment also if its name is not bound when its expression has been evaluated. -/
inductive Form.MayFail (ev : Evaluator) (f : FrameId) (m : Machine) :
    Form → (operands exprs : List Value) → Fault → Machine → Prop where
  | inside {form : Form} {operands exprs : List Value} {x : Value} {g : FrameId} {n m' : Machine}
    {fault : Fault} :
    x ∈ exprs → form.Visits ev f m operands x g n → ev g x n = .error fault m' →
    MayFail ev f m form operands exprs fault m'
  | unbound {name : String} {expr v : Value} {m' : Machine} :
    ev f expr m = .ok v m' → m'.store.findCell? f name = none →
    MayFail ev f m .assign [.symbol name, expr] [expr] (.unbound (.assigned name)) m'

theorem Form.mayFail_of_eval {fault : Fault} {m' : Machine} (htakes : form.Takes operands exprs)
    (h : form.eval limit ev f operands m = .error fault m') :
    form.MayFail ev f m operands exprs fault m' := by
  by_cases hform : form = .assign
  · subst hform
    cases htakes with
    | assign name expr =>
      have hassign : evalAssign limit ev f [.symbol name, expr] m = .error fault m' := h
      rcases evalAssign_eq_error hassign with h | ⟨v, hv, hc, rfl⟩
      · exact .inside List.mem_cons_self (.assign name expr) h
      · exact .unbound hv hc
    | bindings body hlet _ => exact absurd hlet (by decide)
  · obtain ⟨x, hx, g, n, hvisits, hfails⟩ := exists_visits_of_eval htakes hform h
    exact .inside hx hvisits hfails

/-- What is malformed is refused, and nothing has happened, provided that its parts can be quoted. A
form that takes its operands only fails as it may, whatever the evaluator of its expressions is, or
because it is too deep itself. -/
theorem failure_by_shape {v : Value} :
    (v.Malformed → ∀ style limit f m, (∀ items, v.toList? = some items →
        ∀ x ∈ items, ∃ text, m.store.inspect limit x = .ok text) →
      ∃ cause, evaluate style (limit + 1) f v m = .error (.misuse cause) m) ∧
    ∀ (form : Form) operands exprs, v.toList? = some (.symbol form.name :: operands) →
      form.Takes operands exprs →
      (∀ style limit ev f m fault m', step style limit ev f v m = .error fault m' →
        form.MayFail ev f m operands exprs fault m') ∧
      ∀ style limit f m fault m', evaluate style limit f v m = .error fault m' →
        fault = .tooDeep ∨ ∃ room, limit = room + 1 ∧
          form.MayFail (evaluate style room) f m operands exprs fault m' := by
  refine ⟨fun h style limit f m hshown => refuses_step h hshown, ?_⟩
  intro form operands exprs hv htakes
  have hstep : ∀ style limit ev f m fault m', step style limit ev f v m = .error fault m' →
      form.MayFail ev f m operands exprs fault m' := by
    intro style limit ev f m fault m' h
    rw [step_form hv] at h
    exact Form.mayFail_of_eval htakes h
  refine ⟨hstep, ?_⟩
  intro style limit f m fault m' h
  cases limit with
  | zero =>
    obtain ⟨rfl, -⟩ := EStateM.Result.error.inj h
    exact .inl rfl
  | succ room => exact .inr ⟨room, rfl, hstep _ _ _ _ _ _ _ h⟩

/-- The second binding has no initialiser, so the first one is not evaluated; and a form that takes
its operands fails with its test. -/
theorem failure_by_shape_binding :
    let m : Machine := ⟨(Store.empty.newFrame none).2, .ofString "", ""⟩
    let list (items : List Value) : Value := .listTo 0 items .nil
    let write := list [.symbol "set!", .symbol "x", .bool true]
    let short := list [list [.symbol "y", write], list [.symbol "z"]]
    let block := list [.symbol "let", short, .symbol "y"]
    let choice := list [.symbol "if", .symbol "x", .nil]
    (∃ cause, evaluate .plain 9 0 block m = .error (.misuse cause) m) ∧
      evaluate .plain 9 0 choice m = .error (.unbound (.read "x")) m ∧
      ∃ room, 9 = room + 1 ∧ Form.ifElse.MayFail (evaluate .plain room) 0 m [.symbol "x", .nil]
        [.symbol "x", .nil] (.unbound (.read "x")) m := by
  intro m list write short block choice
  have hrefused : ∀ exprs, ¬ Form.letIn.Takes [short, .symbol "y"] exprs := by
    intro exprs h
    cases h with
    | bindings body hform hbs => exact nomatch hbs
  have hmalformed : block.Malformed := .refused 0 (by decide) rfl hrefused
  have hshown : ∀ items, block.toList? = some items →
      ∀ x ∈ items, ∃ text, m.store.inspect 8 x = .ok text := by
    intro items hitems
    obtain rfl : [.symbol "let", short, .symbol "y"] = items := Option.some.inj hitems
    simp only [List.forall_mem_cons]
    exact ⟨⟨_, rfl⟩, ⟨_, rfl⟩, ⟨_, rfl⟩, nofun⟩
  have hfails : evaluate .plain 9 0 choice m = .error (.unbound (.read "x")) m := by
    with_unfolding_all rfl
  have htoo : Fault.unbound (.read "x") ≠ .tooDeep := nofun
  have hitems : choice.toList? = some [.symbol "if", .symbol "x", .nil] := rfl
  have hchoice := failure_by_shape.2 .ifElse _ _ hitems (.ifThen (.symbol "x") .nil)
  exact ⟨failure_by_shape.1 hmalformed .plain 8 0 m hshown, hfails,
    (hchoice.2 .plain 9 0 m _ _ hfails).resolve_left htoo⟩

/-- An assignment to a name that is not bound fails although its expression cannot fail so. -/
theorem exists_failure_outside_expressions :
    let m : Machine := ⟨(Store.empty.newFrame none).2, .ofString "", ""⟩
    let write : Value := .listTo 0 [.symbol "set!", .symbol "x", .int 1] .nil
    Form.assign.Takes [.symbol "x", .int 1] [.int 1] ∧
      evaluate .plain 2 0 write m = .error (.unbound (.assigned "x")) m ∧
      ∀ style limit g n n',
        evaluate style limit g (.int 1) n ≠ .error (.unbound (.assigned "x")) n' := by
  refine ⟨.assign "x" (.int 1), by with_unfolding_all rfl, ?_⟩
  intro style limit g n n'
  cases limit with
  | zero => exact nofun
  | succ limit => exact nofun

end Keel
