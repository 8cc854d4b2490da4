import Keel.Proofs.Coupling.Basic

/-! # Coupled evaluation

Evaluators that are coupled make all of evaluation coupled, provided that the two
machines have the same store wherever they are compared. Each of the two runs has
a nesting limit of its own, which shows only where values are told.
-/

namespace Keel

def EvaluatorCouples (C : Coupling Machine) (ev ev' : Evaluator) : Prop :=
  ∀ f expr, C.Couples (ev f expr) (ev' f expr)

namespace Coupling

structure SameStore (C : Coupling Machine) : Prop extends C.Closed where
  store : ∀ {m n}, C.Related m n → n.store = m.store
  update : ∀ {m n s}, C.Related m n → C.Related { m with store := s } { n with store := s }
  lost_update : ∀ {m s}, C.Lost m → C.Lost { m with store := s }

/-- What is to be shown of a coupling, so that evaluation is coupled. -/
structure Lawful (C : Coupling Machine) (style : Style) (limit limit' : Nat) : Prop
    extends C.SameStore where
  nextChar : C.Couples Action.nextChar Action.nextChar
  write : ∀ text, C.Couples (Action.write text) (Action.write text)
  shown : ∀ v, C.Couples (Action.shown limit v) (Action.shown limit' v)
  told : ∀ v, C.Couples (Action.inspecting fun s => unlessTooLong (s.inspect limit v))
    (Action.inspecting fun s => unlessTooLong (s.inspect limit' v))
  toldBoth : ∀ v w,
    C.Couples (Action.inspecting fun s => unlessTooLong do
      return (← s.inspect limit v, ← s.inspect limit w))
      (Action.inspecting fun s => unlessTooLong do
      return (← s.inspect limit' v, ← s.inspect limit' w))
  rendered : ∀ v, C.Couples (Action.inspecting (·.render limit v))
    (Action.inspecting (·.render limit' v))
  written : ∀ v, C.Couples (Action.inspecting fun s => style.write s.closureName limit v)
    (Action.inspecting fun s => style.write s.closureName limit' v)

/-! ## Actions -/

namespace SameStore

variable {C : Coupling Machine} {α : Type} (h : C.SameStore)
include h

/-- What is done depends on the store, and it does so in the same way. -/
theorem ofStore {a b : Action α} (hab : ∀ s, ∃ k l, C.Couples k l ∧
    (∀ m : Machine, m.store = s → a m = k m) ∧ ∀ m : Machine, m.store = s → b m = l m) :
    C.Couples a b where
  adrift {m} hm := by
    obtain ⟨k, l, hkl, hk, -⟩ := hab m.store
    rw [hk m rfl]
    exact hkl.adrift hm
  agrees {m n} hmn := by
    obtain ⟨k, l, hkl, hk, hl⟩ := hab m.store
    rw [hk m rfl, hl n (h.store hmn)]
    exact hkl.agrees hmn

theorem ofExcept (x : Except Fault α) : C.Couples (Action.ofExcept x) (Action.ofExcept x) := by
  cases x with
  | ok v => exact couples_pure v
  | error fault => exact h.throw fault

theorem inspecting (f : Store → Except Fault α) :
    C.Couples (Action.inspecting f) (Action.inspecting f) :=
  h.ofStore fun s => ⟨_, _, h.ofExcept (f s), fun _ hm => hm ▸ rfl, fun _ hm => hm ▸ rfl⟩

theorem updating (g : Store → α × Store) :
    C.Couples (Action.updating g) (Action.updating g) where
  adrift hm := h.lost_update hm
  agrees {m n} hmn := by
    have hn : Action.updating g n = .ok (g n.store).1 { n with store := (g n.store).2 } := rfl
    rw [h.store hmn] at hn
    exact .inr ⟨_, hn, h.update hmn⟩

theorem lawful {style : Style} {limit : Nat} (hnext : C.Couples Action.nextChar Action.nextChar)
    (hwrite : ∀ text, C.Couples (Action.write text) (Action.write text)) :
    C.Lawful style limit limit where
  toSameStore := h
  nextChar := hnext
  write := hwrite
  shown _ := h.inspecting _
  told _ := h.inspecting _
  toldBoth _ _ := h.inspecting _
  rendered _ := h.inspecting _
  written _ := h.inspecting _

end SameStore

namespace Lawful

variable {C : Coupling Machine} {style : Style} {limit limit' : Nat} {α : Type}
  (h : C.Lawful style limit limit')
include h

theorem misuse (cause : Misuse) :
    C.Couples (Action.misuse cause : Action α) (Action.misuse cause) :=
  h.throw _

theorem properList (construct : String) (v : Value) :
    C.Couples (Action.properList construct v) (Action.properList construct v) := by
  unfold Action.properList
  split
  · exact couples_pure _
  · exact h.misuse _

theorem define (f : FrameId) (name : String) (v : Value) :
    C.Couples (Action.define f name v) (Action.define f name v) :=
  h.bind (h.updating (·.define f name v)) fun _ => couples_pure ()

theorem assign (f : FrameId) (name : String) (v : Value) :
    C.Couples (Action.assign f name v) (Action.assign f name v) := by
  refine h.ofStore fun s => ?_
  cases hc : s.findCell? f name with
  | some c =>
    refine ⟨_, _, h.updating fun s => ((), s.setCell c v), ?_, ?_⟩ <;>
    · rintro m rfl
      exact Action.assign_of_eq_some hc
  | none =>
    refine ⟨_, _, h.throw (.unbound (.assigned name)), ?_, ?_⟩ <;>
    · rintro m rfl
      exact Action.assign_of_eq_none hc

theorem named (v : Value) (name : String) :
    C.Couples (Action.named v name) (Action.named v name) :=
  h.bind (h.updating _) fun _ => couples_pure v

theorem parameters (form : Form) (params : Value) :
    C.Couples (Form.parameters limit form params) (Form.parameters limit' form params) := by
  refine h.bind (h.properList form.name params) fun formals => ?_
  cases formals.find? (!·.isSymbol) with
  | some formal => exact h.bind (h.shown formal) fun _ => h.misuse _
  | none =>
    by_cases hnodup : formals.Nodup
    · simpa only [if_pos hnodup] using couples_pure formals
    · simpa only [if_neg hnodup] using h.misuse _

theorem binding (form : Form) (v : Value) :
    C.Couples (Form.binding form v) (Form.binding form v) := by
  refine h.bind (h.properList form.name v) fun parts => ?_
  split
  · exact couples_pure _
  · exact h.misuse _

theorem bindingsAndBody (form : Form) (operands : List Value) :
    C.Couples (Form.bindingsAndBody form operands) (Form.bindingsAndBody form operands) := by
  cases operands with
  | nil => exact h.misuse _
  | cons bindings body =>
    exact h.bind (h.properList form.name bindings) fun items =>
      h.bind (h.mapM items (h.binding form)) fun _ => couples_pure _

theorem declareFrame (f : FrameId) (bindings : List (String × Value)) :
    C.Couples (Form.declareFrame f bindings) (Form.declareFrame f bindings) :=
  h.bind (h.updating _) fun _ => h.bind (h.mapM bindings fun _ => h.updating _) fun _ =>
    couples_pure _

theorem bindFormal (f : FrameId) (formal v : Value) :
    C.Couples (Scope.define limit f formal v) (Scope.define limit' f formal v) := by
  have hbindable : C.Couples (Scope.bindable limit formal) (Scope.bindable limit' formal) := by
    cases formal with
    | symbol name => exact couples_pure name
    | _ => exact h.bind (h.shown _) fun _ => h.misuse _
  exact h.bind hbindable fun _ => h.updating _

theorem primitive (p : Primitive) (args : List Value) :
    C.Couples (p.call style limit args) (p.call style limit' args) := by
  unfold Primitive.call
  split
  · refine h.bind h.nextChar fun c => ?_
    cases c <;> exact couples_pure _
  · exact h.bind (h.written _) fun text => h.bind (h.write text) fun _ => couples_pure _
  · split
    · exact couples_pure _
    · exact h.bind (h.ofExcept _) fun _ => h.misuse _
  · exact couples_pure _
  · split
    · exact couples_pure _
    · exact h.misuse _
  · exact h.updating _
  · exact h.updating _
  · exact couples_pure _
  · exact couples_pure _
  · exact couples_pure _
  · exact couples_pure _
  · exact h.misuse _

/-! ## Forms -/

theorem evalQuote (operands : List Value) :
    C.Couples (Form.evalQuote operands) (Form.evalQuote operands) := by
  unfold Form.evalQuote
  split
  · exact couples_pure _
  · exact h.misuse _

variable {ev ev' : Evaluator} (hev : EvaluatorCouples C ev ev') (f : FrameId)
include hev

theorem sequence (body : List Value) :
    C.Couples (Form.sequence ev f body) (Form.sequence ev' f body) :=
  h.foldlM body Value.nil fun _ expr => hev f expr

theorem evalIf (operands : List Value) :
    C.Couples (Form.evalIf ev f operands) (Form.evalIf ev' f operands) := by
  unfold Form.evalIf
  split
  · refine h.bind (hev f _) fun v => ?_
    split
    · exact hev f _
    · exact couples_pure _
  · refine h.bind (hev f _) fun v => ?_
    split
    · exact hev f _
    · exact hev f _
  · exact h.misuse _

theorem evalCond (clauses : List Value) :
    C.Couples (Form.evalCond ev f clauses) (Form.evalCond ev' f clauses) := by
  induction clauses with
  | nil => exact couples_pure _
  | cons clause clauses ih =>
    cases clause with
    | pair id test body =>
      refine h.bind (h.properList _ body) fun items => ?_
      have hselect : ∀ v : Value, C.Couples
          (if v.isTrue then if items.isEmpty then pure v else Form.sequence ev f items
            else Form.evalCond ev f clauses)
          (if v.isTrue then if items.isEmpty then pure v else Form.sequence ev' f items
            else Form.evalCond ev' f clauses) := by
        intro v
        split
        · split
          · exact couples_pure v
          · exact h.sequence hev f items
        · exact ih
      by_cases helse : test = .symbol "else"
      · simpa only [if_pos helse] using h.bind (couples_pure (.bool true)) hselect
      · simpa only [if_neg helse] using h.bind (hev f test) hselect
    | _ => exact h.misuse _

theorem evalAnd (last : Value) (operands : List Value) :
    C.Couples (Form.evalAnd ev f last operands) (Form.evalAnd ev' f last operands) := by
  induction operands generalizing last with
  | nil => exact couples_pure last
  | cons expr exprs ih =>
    refine h.bind (hev f expr) fun v => ?_
    split
    · exact ih v
    · exact couples_pure v

theorem evalOr (operands : List Value) :
    C.Couples (Form.evalOr ev f operands) (Form.evalOr ev' f operands) := by
  induction operands with
  | nil => exact couples_pure _
  | cons expr exprs ih =>
    refine h.bind (hev f expr) fun v => ?_
    split
    · exact couples_pure v
    · exact ih

omit hev in
theorem evalLambda (operands : List Value) :
    C.Couples (Form.evalLambda limit f operands) (Form.evalLambda limit' f operands) := by
  cases operands with
  | nil => exact h.misuse _
  | cons params body => exact h.bind (h.parameters _ params) fun formals => h.updating _

theorem evalDefine (operands : List Value) :
    C.Couples (Form.evalDefine limit ev f operands) (Form.evalDefine limit' ev' f operands) := by
  unfold Form.evalDefine
  split
  · refine h.bind (h.parameters _ _) fun formals => h.bind (h.updating _) fun v => ?_
    exact h.bind (h.define f _ v) fun _ => couples_pure _
  · exact h.misuse _
  · refine h.bind (hev f _) fun v => h.bind (h.named v _) fun w => ?_
    exact h.bind (h.define f _ w) fun _ => couples_pure _
  · exact h.bind (h.shown _) fun _ => h.misuse _
  · exact h.misuse _

theorem evalAssign (operands : List Value) :
    C.Couples (Form.evalAssign limit ev f operands) (Form.evalAssign limit' ev' f operands) := by
  unfold Form.evalAssign
  split
  · exact h.bind (hev f _) fun v => h.bind (h.assign f _ v) fun _ => couples_pure v
  · exact h.bind (h.shown _) fun _ => h.misuse _
  · exact h.misuse _

theorem letFrame (bindings : List (String × Value)) :
    C.Couples (Form.letFrame ev f bindings) (Form.letFrame ev' f bindings) := by
  refine h.bind (h.mapM bindings fun b => h.bind (hev f b.2) fun v => h.named v b.1) fun values => ?_
  refine h.bind (h.updating _) fun inner => ?_
  exact h.bind (h.forM _ fun b => h.define inner b.1.1 b.2) fun _ => couples_pure inner

theorem letStarFrame (bindings : List (String × Value)) :
    C.Couples (Form.letStarFrame ev f bindings) (Form.letStarFrame ev' f bindings) := by
  refine h.bind (h.foldlM bindings f fun g b => ?_) fun _ => h.updating _
  refine h.bind (hev g b.2) fun v => h.bind (h.named v b.1) fun w => h.bind (h.updating _) ?_
  exact fun inner => h.bind (h.define inner b.1 w) fun _ => couples_pure inner

theorem initialise (cells : List CellId) (bindings : List (String × Value)) :
    C.Couples (Form.initialise ev f cells bindings) (Form.initialise ev' f cells bindings) :=
  h.forM _ fun p => h.bind (hev f p.2.2) fun v => h.bind (h.named v p.2.1) fun _ => h.updating _

theorem letRecFrame (bindings : List (String × Value)) :
    C.Couples (Form.letRecFrame ev f bindings) (Form.letRecFrame ev' f bindings) :=
  h.bind (h.declareFrame f bindings) fun p =>
    h.bind (h.initialise hev p.1 p.2 bindings) fun _ => couples_pure p.1

theorem form (form : Form) (operands : List Value) :
    C.Couples (form.eval limit ev f operands) (form.eval limit' ev' f operands) := by
  cases form with
  | quote => exact h.evalQuote operands
  | ifElse => exact h.evalIf hev f operands
  | cond => exact h.evalCond hev f operands
  | and => exact h.evalAnd hev f _ operands
  | or => exact h.evalOr hev f operands
  | lambda => exact h.evalLambda f operands
  | define => exact h.evalDefine hev f operands
  | assign => exact h.evalAssign hev f operands
  | begin => exact h.sequence hev f operands
  | letIn =>
    exact h.bind (h.bindingsAndBody _ operands) fun p =>
      h.bind (h.letFrame hev f p.1) fun inner => h.sequence hev inner p.2
  | letStar =>
    exact h.bind (h.bindingsAndBody _ operands) fun p =>
      h.bind (h.letStarFrame hev f p.1) fun inner => h.sequence hev inner p.2
  | letRec =>
    exact h.bind (h.bindingsAndBody _ operands) fun p =>
      h.bind (h.letRecFrame hev f p.1) fun inner => h.sequence hev inner p.2

/-! ## Calls and expressions -/

omit f

theorem closureCall (fn : Closure) (args : List Value) :
    C.Couples (fn.call limit ev args) (fn.call limit' ev' args) := by
  unfold Closure.call
  split
  · refine h.bind (h.updating _) fun inner => ?_
    refine h.bind (h.forM _ fun p => ?_) fun _ => h.sequence hev inner fn.body
    exact h.bind (h.bindFormal inner p.1 p.2) fun _ => couples_pure ()
  · exact h.misuse _

theorem call (fn : Value) (args : List Value) :
    C.Couples (fn.call style limit ev args) (fn.call style limit' ev' args) := by
  cases fn with
  | primitive id p => exact h.primitive p args
  | closure id =>
    refine h.ofStore fun s => ?_
    cases hr : s.closures[id]? with
    | some record =>
      refine ⟨_, _, h.closureCall hev record args, ?_, ?_⟩ <;>
      · rintro m rfl
        exact Value.call_of_eq_some hr
    | none =>
      refine ⟨_, _, h.misuse (.notFunction (Value.showClosure none)), ?_, ?_⟩ <;>
      · rintro m rfl
        exact Value.call_of_eq_none hr
  | _ => exact h.bind (h.rendered _) fun _ => h.misuse _

theorem step : EvaluatorCouples C (Keel.step style limit ev) (Keel.step style limit' ev') := by
  intro f expr
  cases expr with
  | symbol name => exact h.inspecting (·.lookup f name)
  | pair id head tail =>
    cases hform : Form.ofHead? head with
    | some form =>
      simp only [Keel.step, hform]
      exact h.bind (h.properList _ tail) fun operands => h.form hev f form operands
    | none =>
      simp only [Keel.step, hform]
      refine h.bind (h.properList _ tail) fun operands => h.bind (hev f head) fun fn => ?_
      exact h.bind (h.mapM operands fun x => hev f x) fun args => h.call hev fn args
  | _ => exact couples_pure _

omit h hev in
theorem evaluate (h : ∀ limit, C.Lawful style limit limit) (limit : Nat) :
    EvaluatorCouples C (Keel.evaluate style limit) (Keel.evaluate style limit) := by
  induction limit with
  | zero => exact fun _ _ => (h 0).throw .tooDeep
  | succ limit ih => exact (h limit).step ih

end Lawful

end Coupling

end Keel
