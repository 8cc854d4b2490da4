import Mathlib.Data.List.Nodup
import Mathlib.Data.Set.List
import Keel.Evaluation

/-! # How forms are written

A form is a list that starts with its name, and a binding is a list of a symbol
and an expression. The identities of the pairs that these lists are made of do not
matter to evaluation.
-/

namespace Keel

namespace Value

variable {v head : Value} {tail : List Value}

def binding? (v : Value) : Option (String × Value) :=
  match v.toList? with
  | some [.symbol name, expr] => some (name, expr)
  | _ => none

def bindings? (v : Value) : Option (List (String × Value)) :=
  v.toList?.bind (·.mapM binding?)

/-- The value is a list of symbols with the names, which are distinct. -/
structure Parameters (names : List String) (v : Value) : Prop where
  toList? : v.toList? = some (names.map .symbol)
  nodup : names.Nodup

theorem exists_map_symbol {items : List Value} (h : ∀ x ∈ items, x.isSymbol = true) :
    ∃ names : List String, names.map Value.symbol = items := by
  have hrange : items ∈ Set.range (List.map Value.symbol) := by
    rw [Set.range_list_map]
    intro x hx
    cases x with
    | symbol name => exact ⟨name, rfl⟩
    | _ => exact absurd (h _ hx) Bool.false_ne_true
  exact hrange

/-- The value is written as the form with the bindings and the body. -/
def Binds (form : Form) (bindings : List (String × Value)) (body : List Value) (v : Value) : Prop :=
  ∃ bs, v.toList? = some (.symbol form.name :: bs :: body) ∧ bs.bindings? = some bindings

def ofBindings (form : Form) (bindings : List (String × Value)) (body : List Value) : Value :=
  let items := bindings.map fun b => listTo 0 [.symbol b.1, b.2] .nil
  listTo 0 (.symbol form.name :: listTo 0 items .nil :: body) .nil

theorem toList?_listTo_nil (id : Identity) (items : List Value) :
    (listTo id items .nil).toList? = some items := by
  simp [toList?_listTo, toList?]

theorem binds_ofBindings (form : Form) (bindings : List (String × Value)) (body : List Value) :
    (ofBindings form bindings body).Binds form bindings body := by
  refine ⟨_, toList?_listTo_nil .., ?_⟩
  rw [bindings?, toList?_listTo_nil, Option.bind_some, List.mapM_map]
  induction bindings with
  | nil => rfl
  | cons b bindings ih =>
    rw [List.mapM_cons, Function.comp_apply, ih, binding?, toList?_listTo_nil]
    rfl

theorem toList?_eq_cons (h : v.toList? = some (head :: tail)) :
    ∃ id cdr, v = .pair id head cdr ∧ cdr.toList? = some tail := by
  cases v with
  | pair id car cdr =>
    obtain ⟨items, hitems, heq⟩ := Option.map_eq_some_iff.1 h
    obtain ⟨rfl, rfl⟩ := List.cons.inj heq
    exact ⟨id, cdr, rfl, hitems⟩
  | nil => exact nomatch h
  | _ => exact nomatch h

theorem toList?_eq_of_binding? {b : String × Value} (h : v.binding? = some b) :
    v.toList? = some [.symbol b.1, b.2] := by
  unfold binding? at h
  split at h
  · next name expr hv =>
    obtain rfl := Option.some.inj h
    exact hv
  · exact nomatch h

end Value

variable {style : Style} {limit : Nat} {ev : Evaluator} {f : FrameId} {v fn params : Value}
  {form : Form} {items operands body : List Value} {bindings : List (String × Value)}
  {names : List String}

theorem Action.properList_of_eq_some (construct : String) (h : v.toList? = some items) :
    Action.properList construct v = pure items := by
  rw [Action.properList, h]

theorem Form.ofHead?_name (form : Form) : Form.ofHead? (.symbol form.name) = some form :=
  Form.ofName?_eq_some_iff.2 rfl

theorem step_form (h : v.toList? = some (.symbol form.name :: operands)) :
    step style limit ev f v = form.eval limit ev f operands := by
  obtain ⟨id, tail, rfl, htail⟩ := Value.toList?_eq_cons h
  simp only [step, Form.ofHead?_name, Action.properList_of_eq_some _ htail, pure_bind]

theorem step_application (h : v.toList? = some (fn :: operands)) (hfn : Form.ofHead? fn = none) :
    step style limit ev f v = (do
      let fn ← ev f fn
      let args ← operands.mapM (ev f)
      fn.call style limit ev args) := by
  obtain ⟨id, tail, rfl, htail⟩ := Value.toList?_eq_cons h
  simp only [step, hfn, Action.properList_of_eq_some _ htail, pure_bind]

theorem Form.binding_eq {b : String × Value} (form : Form) (h : v.binding? = some b) :
    Form.binding form v = pure b := by
  rw [Form.binding, Action.properList_of_eq_some _ (Value.toList?_eq_of_binding? h)]
  rfl

theorem Form.mapM_binding (form : Form) (h : items.mapM Value.binding? = some bindings) :
    items.mapM (Form.binding form) = pure bindings := by
  induction items generalizing bindings with
  | nil =>
    obtain rfl : [] = bindings := Option.some.inj h
    rfl
  | cons x items ih =>
    rw [List.mapM_cons] at h
    obtain ⟨b, hb, h⟩ := Option.bind_eq_some_iff.1 h
    obtain ⟨rest, hrest, h⟩ := Option.bind_eq_some_iff.1 h
    obtain rfl : b :: rest = bindings := Option.some.inj h
    rw [List.mapM_cons, form.binding_eq hb, ih hrest]
    rfl

theorem Form.bindingsAndBody_eq {bs : Value} (form : Form) (h : bs.bindings? = some bindings) :
    Form.bindingsAndBody form (bs :: body) = pure (bindings, body) := by
  obtain ⟨items, hitems, hbindings⟩ := Option.bind_eq_some_iff.1 h
  rw [Form.bindingsAndBody, Action.properList_of_eq_some _ hitems, pure_bind,
    form.mapM_binding hbindings]
  rfl

theorem Form.parameters_eq (form : Form) (h : params.Parameters names) :
    Form.parameters limit form params = pure (names.map .symbol) := by
  have hsymbols : (names.map Value.symbol).find? (!·.isSymbol) = none := by
    simp [Value.isSymbol]
  have hdistinct : (names.map Value.symbol).Nodup :=
    h.nodup.map fun _ _ heq => Value.symbol.inj heq
  rw [Form.parameters, Action.properList_of_eq_some _ h.toList?, pure_bind]
  simp only [hsymbols, if_pos hdistinct]

theorem Form.evalDefine_symbol (name : String) (expr : Value) :
    Form.evalDefine limit ev f [.symbol name, expr] = (do
      let v ← (do Action.named (← ev f expr) name)
      Action.define f name v
      return .symbol name) := by
  simp [Form.evalDefine]

theorem step_lambda (hv : v.toList? = some (.symbol Form.lambda.name :: params :: body))
    (hparams : params.Parameters names) :
    step style limit ev f v =
      Action.updating (·.newClosure ⟨names.map .symbol, body, f, none⟩) := by
  rw [step_form hv, Form.eval, Form.evalLambda, Form.parameters_eq .lambda hparams, pure_bind]
  rfl

theorem Form.letFrame_nil : Form.letFrame ev f [] = Action.newFrame f := by
  simp [Form.letFrame]

theorem Form.letStarFrame_nil : Form.letStarFrame ev f [] = Action.newFrame f := by
  simp [Form.letStarFrame]

theorem step_let (h : v.Binds .letIn bindings body) :
    step style limit ev f v = (do Form.sequence ev (← Form.letFrame ev f bindings) body) := by
  obtain ⟨bs, hv, hbs⟩ := h
  rw [step_form hv, Form.eval, Form.evalLet, Form.bindingsAndBody_eq _ hbs, pure_bind]

theorem step_letStar (h : v.Binds .letStar bindings body) :
    step style limit ev f v = (do Form.sequence ev (← Form.letStarFrame ev f bindings) body) := by
  obtain ⟨bs, hv, hbs⟩ := h
  rw [step_form hv, Form.eval, Form.evalLetStar, Form.bindingsAndBody_eq _ hbs, pure_bind]

theorem step_letRec (h : v.Binds .letRec bindings body) :
    step style limit ev f v = (do Form.sequence ev (← Form.letRecFrame ev f bindings) body) := by
  obtain ⟨bs, hv, hbs⟩ := h
  rw [step_form hv, Form.eval, Form.evalLetRec, Form.bindingsAndBody_eq _ hbs, pure_bind]

end Keel
