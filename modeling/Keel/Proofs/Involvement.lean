import Keel.Proofs.Discipline.Evaluation
import Keel.Proofs.Tracking

/-! # Evaluations that take place in an evaluation

An evaluation takes place in another one if a different outcome of it alone would
change how the other one ends. To let it fail with a mark is always such a change.
So what evaluation maintains holds whenever an evaluation takes place: otherwise
the mark could be one that is not maintained.
-/

namespace Keel

structure Evaluation where
  limit : Nat
  frame : FrameId
  expr : Value
  machine : Machine

def Evaluation.outcome (style : Style) (e : Evaluation) : EStateM.Result Fault Machine Value :=
  evaluate style e.limit e.frame e.expr e.machine

def Evaluation.after (style : Style) (e : Evaluation) : Machine :=
  (evaluate style e.limit e.frame e.expr).after e.machine

/-- Other outcomes of some evaluations. -/
abbrev Override := Evaluation → Option (EStateM.Result Fault Machine Value)

/-- Evaluation in which some evaluations have other outcomes. -/
def evaluateWith (style : Style) (override : Override) : (limit : Nat) → Evaluator
  | 0 => fun frame expr m => (override ⟨0, frame, expr, m⟩).getD (.error .tooDeep m)
  | limit + 1 => fun frame expr m => (override ⟨limit + 1, frame, expr, m⟩).getD
    (step style limit (evaluateWith style override limit) frame expr m)

open Classical in
noncomputable def Override.only (p : Evaluation) (r : EStateM.Result Fault Machine Value) :
    Override :=
  fun e => if e = p then some r else none

/-- The evaluation `p` takes place in `e`: if it alone had a certain other outcome, then `e` would
have another outcome as well. -/
def Evaluation.Involves (style : Style) (e p : Evaluation) : Prop :=
  ∃ r, evaluateWith style (.only p r) e.limit e.frame e.expr e.machine ≠ e.outcome style

/-- The evaluation comes to a call of `fn` with the arguments `args`, on the machine `m'`. -/
inductive Evaluation.Calls (style : Style) (fn : Value) (args : List Value) (m' : Machine) :
    Evaluation → Prop
  | application {limit : Nat} {f : FrameId} {id : Identity} {head tail : Value}
      {operands : List Value} {m m₁ : Machine}
      (noForm : Form.ofHead? head = none)
      (parts : tail.toList? = some operands)
      (operator : evaluate style limit f head m = .ok fn m₁)
      (arguments : operands.mapM (evaluate style limit f) m₁ = .ok args m') :
      Calls style fn args m' ⟨limit + 1, f, .pair id head tail, m⟩

variable {style : Style} {override : Override} {limit : Nat} {f : FrameId} {expr : Value}
  {m m' : Machine} {e p : Evaluation}

/-! ## Evaluation with other outcomes -/

theorem evaluateWith_of_some {r : EStateM.Result Fault Machine Value}
    (h : override ⟨limit, f, expr, m⟩ = some r) :
    evaluateWith style override limit f expr m = r := by
  cases limit <;> simp only [evaluateWith, h, Option.getD_some]

theorem evaluateWith_zero (h : override ⟨0, f, expr, m⟩ = none) :
    evaluateWith style override 0 f expr m = .error .tooDeep m := by
  simp only [evaluateWith, h, Option.getD_none]

theorem evaluateWith_succ (h : override ⟨limit + 1, f, expr, m⟩ = none) :
    evaluateWith style override (limit + 1) f expr m =
      step style limit (evaluateWith style override limit) f expr m := by
  simp only [evaluateWith, h, Option.getD_none]

theorem evaluateWith_none (limit : Nat) :
    evaluateWith style (fun _ => none) limit = evaluate style limit := by
  induction limit with
  | zero => rfl
  | succ limit ih =>
    funext f expr m
    rw [evaluateWith_succ rfl, ih]
    rfl

theorem Evaluation.outcome_succ : (Evaluation.mk (limit + 1) f expr m).outcome style =
    step style limit (evaluate style limit) f expr m :=
  rfl

/-- What evaluations other than `p` do can differ only after the mark of `p`. -/
theorem tracks_elsewhere {mark : Fault} (hother : ∀ e, e ≠ p → override e = none) (limit : Nat) :
    EvaluatorTracks (.after fun fault m' => fault = mark ∧ m' = m)
      (evaluateWith style (.only p (.error mark m)) limit) (evaluateWith style override limit) := by
  induction limit with
  | zero =>
    intro f expr n
    by_cases h : Evaluation.mk 0 f expr n = p
    · rw [evaluateWith_of_some (if_pos h)]
      exact .inl ⟨rfl, rfl⟩
    · rw [evaluateWith_zero (if_neg h), evaluateWith_zero (hother _ h)]
      exact .inr rfl
  | succ limit ih =>
    intro f expr n
    by_cases h : Evaluation.mk (limit + 1) f expr n = p
    · rw [evaluateWith_of_some (if_pos h)]
      exact .inl ⟨rfl, rfl⟩
    · rw [evaluateWith_succ (if_neg h), evaluateWith_succ (hother _ h)]
      exact Departure.closed_after.step ih style limit f expr n

theorem Evaluation.involves_self (style : Style) (e : Evaluation) : e.Involves style e := by
  obtain ⟨r, hr⟩ : ∃ r, r ≠ e.outcome style := by
    cases e.outcome style with
    | ok v m => exact ⟨.error .tooDeep m, nofun⟩
    | error fault m => exact ⟨.ok .nil m, nofun⟩
  refine ⟨r, ?_⟩
  rwa [evaluateWith_of_some (if_pos rfl)]

/-- The mark of an evaluation that takes place is what the whole evaluation ends with. -/
theorem Evaluation.Involves.eq_error (h : e.Involves style p) (mark : Fault) (m : Machine) :
    evaluateWith style (.only p (.error mark m)) e.limit e.frame e.expr e.machine =
      .error mark m := by
  refine Classical.byContradiction fun hunmarked => ?_
  have hsame : ∀ override : Override, (∀ e, e ≠ p → override e = none) →
      evaluateWith style override e.limit e.frame e.expr e.machine =
        evaluateWith style (.only p (.error mark m)) e.limit e.frame e.expr e.machine := by
    intro override hother
    refine (tracks_elsewhere hother e.limit e.frame e.expr).eq_of_after ?_
    rintro fault m' heq ⟨rfl, rfl⟩
    exact hunmarked heq
  obtain ⟨r, hr⟩ := h
  have hplain := hsame (fun _ => none) fun _ _ => rfl
  rw [evaluateWith_none] at hplain
  exact hr ((hsame (.only p r) fun _ hne => if_neg hne).trans hplain.symm)

theorem evaluate_application {id : Identity} {head tail fn : Value} {operands args : List Value}
    {m₁ : Machine} (hform : Form.ofHead? head = none) (hparts : tail.toList? = some operands)
    (hoperator : evaluate style limit f head m = .ok fn m₁)
    (harguments : operands.mapM (evaluate style limit f) m₁ = .ok args m') :
    evaluate style (limit + 1) f (.pair id head tail) m =
      fn.call style limit (evaluate style limit) args m' := by
  show step style limit (evaluate style limit) f (.pair id head tail) m = _
  simp only [step, hform, Action.properList, hparts, pure_bind]
  exact (bind_of_eq_ok hoperator).trans (bind_of_eq_ok harguments)

theorem Evaluation.Calls.outcome_eq {fn : Value} {args : List Value}
    (h : e.Calls style fn args m') : ∃ limit, e.limit = limit + 1 ∧
      e.outcome style = fn.call style limit (evaluate style limit) args m' := by
  obtain ⟨hform, hparts, hoperator, harguments⟩ := h
  exact ⟨_, rfl, evaluate_application hform hparts hoperator harguments⟩

namespace Discipline

/-- The discipline is not suspended in a `letrec` either, whatever evaluates its initialisers. -/
structure Steady (D : Discipline) (style : Style) : Prop extends D.Regular style where
  letRecFrame : ∀ {ev m f bindings}, D.EvaluatorKeeps ev → D.Good m → D.Scope f m →
    D.BindingsCode bindings m → D.Keeps m (Form.letRecFrame ev f bindings) D.Scope

structure Admits (D : Discipline) (e : Evaluation) : Prop where
  good : D.Good e.machine
  scope : D.Scope e.frame e.machine
  code : D.Code e.expr e.machine

variable {D : Discipline}

namespace Steady

variable (h : D.Steady style)
include h

theorem lawful : D.Lawful style where
  toRegular := h.toRegular
  letRecFrame hm hf hb hev := h.letRecFrame hev hm hf hb

/-- Other outcomes of evaluations that are not admitted do not matter. -/
theorem keeps_evaluateWith (hnone : ∀ e, D.Admits e → override e = none) (limit : Nat) :
    D.EvaluatorKeeps (evaluateWith style override limit) := by
  induction limit with
  | zero =>
    intro m f expr hm hf hc
    unfold Keeps
    rw [evaluateWith_zero (hnone _ ⟨hm, hf, hc⟩)]
    exact h.exceeded hm (.inl rfl)
  | succ limit ih =>
    intro m f expr hm hf hc
    have hstep : D.Keeps m (step style limit (evaluateWith style override limit) f expr) D.Val := by
      refine h.keeps_step ih hm hf hc fun hexpr ho => ?_
      subst hexpr
      exact h.keeps_bindingForm ih hm (h.code_items (h.code_cdr hc) ho) fun hs hm' _ hb =>
        h.letRecFrame ih hm' (h.scope_mono hs hf) hb
    exact hstep.congr (evaluateWith_succ (hnone _ ⟨hm, hf, hc⟩))

/-- Whatever takes place in an evaluation that is admitted is admitted as well, provided that not
every failure is. -/
theorem admits_of_involves {mark : Fault} (hmark : ∀ m, D.Good m → ¬ D.Fails m mark m')
    (he : D.Admits e) (hp : e.Involves style p) : D.Admits p := by
  refine Classical.byContradiction fun hrefused => ?_
  have hnone : ∀ e, D.Admits e → Override.only p (.error mark m') e = none := by
    intro e he
    refine if_neg ?_
    rintro rfl
    exact hrefused he
  have hkeeps := h.keeps_evaluateWith hnone e.limit he.good he.scope he.code
  exact hmark _ he.good (hkeeps.of_eq_error (hp.eq_error mark m'))

end Steady

/-- The machine on which a call is made is as good, and so are the function and its arguments. -/
theorem Lawful.good_of_calls (h : D.Lawful style) (he : D.Admits e) {fn : Value} {args : List Value}
    (hcall : e.Calls style fn args m') : D.Good m' ∧ D.Val fn m' ∧ ∀ v ∈ args, D.Val v m' := by
  obtain @⟨limit, f, id, head, tail, operands, m, m₁, -, hparts, hoperator, harguments⟩ := hcall
  obtain ⟨hm, hf, hc⟩ := he
  have hitems : D.AllCode operands m := h.code_items (h.code_cdr hc) hparts
  obtain ⟨hs₁, hm₁, hfn⟩ := (h.evaluate limit hm hf (h.code_car hc)).of_eq_ok hoperator
  have hmap : D.Keeps m₁ (operands.mapM (Keel.evaluate style limit f)) fun vs m' =>
      ∀ v ∈ vs, D.Val v m' :=
    h.keeps_mapM hm₁ (fun m' hs hm' x hx => h.evaluate limit hm'
      (h.scope_mono (h.trans hs₁ hs) hf) (h.code_mono (h.trans hs₁ hs) (hitems x hx))) h.val_mono
  obtain ⟨hs, hm', hargs⟩ := hmap.of_eq_ok harguments
  exact ⟨hm', h.val_mono hs hfn, hargs⟩

end Discipline

end Keel
