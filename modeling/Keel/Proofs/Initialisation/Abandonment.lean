import Keel.Proofs.Initialisation.Evaluation
import Keel.Proofs.Involvement
import Keel.Proofs.LetForms.Shape

/-! # Cells that are abandoned

A cell is abandoned if a `letrec` declares it and then fails to initialise its
cells. An evaluation leaves a new cell uninitialised only if one that abandons
the cell takes place in it. To see this, let all those that abandon the cell end
with marks, each with its own: then the evaluation ends with one of the marks.
-/

namespace Keel

/-- The evaluation of a `letrec` that declares the cell and fails while it initialises its cells. -/
inductive Evaluation.Abandons (style : Style) (c : CellId) : Evaluation → Prop
  | letRec {limit : Nat} {f inner : FrameId} {id : Identity} {tail : Value}
      {operands body : List Value} {bindings : List (String × Value)} {cells : List CellId}
      {m m₁ m₂ m₃ : Machine} {fault : Fault}
      (parts : tail.toList? = some operands)
      (split : Form.bindingsAndBody .letRec operands m = .ok (bindings, body) m₁)
      (declared : Form.declareFrame f bindings m₁ = .ok (inner, cells) m₂)
      (mem : c ∈ cells)
      (failed : Form.initialise (evaluate style limit) inner cells bindings m₂ = .error fault m₃) :
      Abandons style c ⟨limit + 1, f, .pair id (.symbol Form.letRec.name) tail, m⟩

variable {style : Style} {limit : Nat} {f : FrameId} {expr : Value}
  {m m' : Machine} {c : CellId} {fault mark : Fault}

/-! ## Abandoning a cell -/

theorem Evaluation.Abandons.outcome_eq_error {e : Evaluation} (h : e.Abandons style c) :
    ∃ fault m', e.outcome style = .error fault m' := by
  obtain @⟨limit, f, inner, id, tail, operands, body, bindings, cells, m, m₁, m₂, m₃, fault, hparts,
    hsplit, hdeclared, -, hfailed⟩ := h
  refine ⟨fault, m₃, ?_⟩
  have hlist : (Value.pair id (.symbol Form.letRec.name) tail).toList? =
      some (.symbol Form.letRec.name :: operands) := by
    rw [Value.toList?, hparts]
    rfl
  rw [outcome_succ, step_form hlist]
  have hframe : Form.letRecFrame (evaluate style limit) f bindings m₁ = .error fault m₃ := by
    rw [Form.letRecFrame_eq hdeclared, hfailed]
  exact (bind_of_eq_ok hsplit).trans (bind_of_eq_error hframe)

/-! ## Marking the evaluations that abandon a cell -/

def Evaluation.imprint (e : Evaluation) : Machine :=
  let s := (e.machine.store.newClosure ⟨[e.expr], [], e.frame, none⟩).2
  { e.machine with store := (s.newClosure ⟨[], [], e.limit, none⟩).2 }

theorem Evaluation.imprint_injective {e e' : Evaluation} (h : e.imprint = e'.imprint) : e = e' := by
  obtain ⟨limit, f, expr, ⟨⟨frames, cells, closures, id⟩, source, output⟩⟩ := e
  obtain ⟨limit', f', expr', ⟨⟨frames', cells', closures', id'⟩, source', output'⟩⟩ := e'
  simp only [imprint, Store.newClosure, Machine.mk.injEq, Store.mk.injEq, Array.push_eq_push,
    Closure.mk.injEq] at h
  grind

theorem Evaluation.holdsKeel_imprint {e : Evaluation} (hm : e.machine.store.HoldsKeel)
    (hc : e.expr.isKeel = true) : e.imprint.store.HoldsKeel := by
  have hparts : ∀ x ∈ [e.expr], x.isKeel = true := by simpa using hc
  exact (hm.newClosure (c := ⟨[e.expr], [], e.frame, none⟩) ⟨hparts, by simp⟩).newClosure
    ⟨by simp, by simp⟩

open Classical in
/-- Lets the evaluations that abandon the cell fail with a mark of their own. -/
noncomputable def Override.marking (style : Style) (c : CellId) (mark : Fault) : Override :=
  fun e => if e.Abandons style c then some (.error mark e.imprint) else none

/-- Ending with a mark instead of the fault. -/
def Departure.marking (style : Style) (c : CellId) (mark : Fault) : Departure := fun fault m e =>
  e = some (fault, m) ∨ ∃ p : Evaluation, p.Abandons style c ∧ e = some (mark, p.imprint)

theorem Departure.not_marking_none : ¬ Departure.marking style c mark fault m none := by
  rintro (h | ⟨p, -, h⟩)
  · exact nomatch h
  · exact nomatch h

theorem Departure.closed_marking : (Departure.marking style c mark).Closed where
  same := .inl rfl
  onward h := absurd h not_marking_none

/-- Marking does not change how evaluation proceeds, only how it may fail. -/
theorem tracks_marking (limit : Nat) : EvaluatorTracks (.marking style c mark)
    (evaluate style limit) (evaluateWith style (.marking style c mark) limit) := by
  induction limit with
  | zero =>
    intro f expr m
    rw [evaluateWith_zero (if_neg nofun)]
    exact .inl rfl
  | succ limit ih =>
    intro f expr m
    by_cases h : (Evaluation.mk (limit + 1) f expr m).Abandons style c
    · obtain ⟨fault, m', hout⟩ := h.outcome_eq_error
      have hev : evaluate style (limit + 1) f expr m = .error fault m' := hout
      rw [hev, evaluateWith_of_some (if_pos h)]
      exact .inr ⟨_, h, rfl⟩
    · rw [evaluateWith_succ (if_neg h)]
      exact Departure.closed_marking.step ih style limit f expr m

/-- If cells are not initialised with marks, then they are not without them either. -/
theorem initialise_fails_of_marked {inner : FrameId} {cells : List CellId}
    {bindings : List (String × Value)} (h : Form.initialise
      (evaluateWith style (.marking style c mark) limit) inner cells bindings m = .error fault m') :
    ∃ fault' m'', Form.initialise (evaluate style limit) inner cells bindings m =
      .error fault' m'' := by
  have hev : EvaluatorTracks (.marking style c mark) (evaluate style limit)
      (evaluateWith style (.marking style c mark) limit) := tracks_marking limit
  have htracks := Departure.closed_marking.initialise hev inner cells bindings
  cases hplain : Form.initialise (evaluate style limit) inner cells bindings m with
  | ok u m'' => exact nomatch h.symm.trans (htracks.of_eq_ok hplain)
  | error fault' m'' => exact ⟨fault', m'', rfl⟩

/-- Departing arbitrarily, but for one way to fail. -/
def Departure.unless (fault : Fault) (m : Machine) : Departure := fun fault' m' e =>
  fault' = fault → m' = m → e = some (fault, m)

theorem Departure.closed_unless : (Departure.unless fault m).Closed where
  same := by
    rintro _ _ rfl rfl
    rfl
  onward h hfault hm := nomatch h hfault hm

/-- The mark of one evaluation does not depend on the marks of others. -/
theorem tracks_only {p : Evaluation} (hp : p.Abandons style c) (limit : Nat) :
    EvaluatorTracks (.unless mark p.imprint) (evaluateWith style (.marking style c mark) limit)
      (evaluateWith style (.only p (.error mark p.imprint)) limit) := by
  induction limit with
  | zero =>
    intro f expr m
    have hne : Evaluation.mk 0 f expr m ≠ p := by
      rintro rfl
      exact nomatch hp
    rw [evaluateWith_zero (if_neg nofun), evaluateWith_zero (if_neg hne)]
    exact Departure.closed_unless.same
  | succ limit ih =>
    intro f expr m
    by_cases h : (Evaluation.mk (limit + 1) f expr m).Abandons style c
    · -- Only if the marks are the same it matters, and then so are the evaluations.
      rw [evaluateWith_of_some (if_pos h)]
      intro _ himprint
      rw [evaluateWith_of_some (if_pos (Evaluation.imprint_injective himprint))]
      rfl
    · have hne : Evaluation.mk (limit + 1) f expr m ≠ p := by
        rintro rfl
        exact h hp
      rw [evaluateWith_succ (if_neg h), evaluateWith_succ (if_neg hne)]
      exact Departure.closed_unless.step ih style limit f expr m

namespace Discipline

/-- Cells are initialised, but for failures with the mark the given cell is excused. -/
abbrev marking (c : CellId) (mark : Fault) : Discipline :=
  initialisation fun fault c' => fault = mark ∨ c' ≠ c

/-- Every `letrec` that may leave the cell uninitialised is marked. -/
theorem keeps_marking (hmark : mark.Exceeded) (limit : Nat) :
    (marking c mark).EvaluatorKeeps (evaluateWith style (.marking style c mark) limit) := by
  induction limit with
  | zero =>
    intro m f expr hm hf hc
    unfold Keeps
    rw [evaluateWith_zero (if_neg nofun)]
    exact initialisation.interrupted_refl hm nofun
  | succ limit ih =>
    intro m f expr hm hf hc
    by_cases h : (Evaluation.mk (limit + 1) f expr m).Abandons style c
    · unfold Keeps
      rw [evaluateWith_of_some (if_pos h)]
      refine ⟨Evaluation.holdsKeel_imprint hm hc, id, fun _ => .inr (.inl rfl), fun hu => ?_⟩
      subst hu
      rcases hmark with he | he <;> exact nomatch he
    · have hr : (marking c mark).Regular style := initialisation.regular
      have hstep : (marking c mark).Keeps m
          (step style limit (evaluateWith style (.marking style c mark) limit) f expr) _ :=
        hr.keeps_step ih hm hf hc fun hexpr ho => ?_
      · exact hstep.congr (evaluateWith_succ (if_neg h))
      subst hexpr
      refine hr.keeps_bindingForm ih hm (hr.code_items (hr.code_cdr hc) ho)
        fun _ hm' hsplit hb =>
          initialisation.keeps_letRecFrame ih hm' hb fun hdeclared hfailed hmem => ?_
      refine .inr fun heq => h ?_
      subst heq
      obtain ⟨fault', m', hplain⟩ := initialise_fails_of_marked hfailed
      exact .letRec ho hsplit hdeclared hmem hplain

end Discipline

/-! ## Involving an evaluation that abandons the cell -/

theorem Fault.exists_exceeded_ne (fault : Fault) :
    ∃ mark : Fault, mark.Exceeded ∧ fault ≠ mark := by
  by_cases h : fault = .tooDeep
  · exact ⟨.tooLong, .inr rfl, by rw [h]; nofun⟩
  · exact ⟨.tooDeep, .inl rfl, h⟩

theorem exists_mark {e : Evaluation} (hm : e.machine.store.HoldsKeel) (hc : e.expr.isKeel = true)
    (hout : e.outcome style = .error fault m') (hu : m'.store.Uninitialised c)
    (hnew : ¬ e.machine.store.Uninitialised c) (hmark : mark.Exceeded) (hne : fault ≠ mark) :
    ∃ p : Evaluation, p.Abandons style c ∧
      evaluateWith style (.marking style c mark) e.limit e.frame e.expr e.machine =
        .error mark p.imprint := by
  have hkeeps : (Discipline.marking c mark).Keeps e.machine
      (evaluateWith style (.marking style c mark) e.limit e.frame e.expr) _ :=
    Discipline.keeps_marking hmark e.limit hm trivial hc
  have hev : EvaluatorTracks (.marking style c mark) (evaluate style e.limit)
      (evaluateWith style (.marking style c mark) e.limit) := tracks_marking e.limit
  have htracks := (hev e.frame e.expr).of_eq_error hout
  cases hmarked : evaluateWith style (.marking style c mark) e.limit e.frame e.expr e.machine with
  | ok v m'' =>
    rw [hmarked] at htracks
    exact absurd htracks Departure.not_marking_none
  | error fault' m'' =>
    rw [hmarked] at htracks
    rcases htracks with hsame | ⟨p, hp, hp'⟩
    · obtain ⟨rfl, rfl⟩ : fault' = fault ∧ m'' = m' := by simpa [failureOf] using hsame
      rcases (hkeeps.of_eq_error hmarked).settled hu with hbefore | hfault | hother
      · exact absurd hbefore hnew
      · exact absurd hfault hne
      · exact absurd rfl hother
    · obtain ⟨rfl, rfl⟩ : fault' = mark ∧ m'' = p.imprint := by simpa [failureOf] using hp'
      exact ⟨p, hp, rfl⟩

/-- A cell that an evaluation leaves uninitialised was so before, or an evaluation that takes place
in it abandons the cell. -/
theorem Evaluation.involves_of_uninitialised {e : Evaluation} (hm : e.machine.store.HoldsKeel)
    (hc : e.expr.isKeel = true) (hu : (e.after style).store.Uninitialised c) :
    e.machine.store.Uninitialised c ∨ ∃ p, p.Abandons style c ∧ e.Involves style p := by
  by_cases hnew : e.machine.store.Uninitialised c
  · exact .inl hnew
  unfold after Action.after at hu
  cases hout : evaluate style e.limit e.frame e.expr e.machine with
  | ok v m' =>
    rw [hout] at hu
    obtain ⟨hs, -, -⟩ := (Discipline.initialisation.keeps_evaluate hm hc).of_eq_ok hout
    exact .inl (hs.settled hu)
  | error fault m' =>
    rw [hout] at hu
    obtain ⟨mark, hmark, hne⟩ := fault.exists_exceeded_ne
    obtain ⟨p, hp, hmarked⟩ := exists_mark hm hc hout hu hnew hmark hne
    refine .inr ⟨p, hp, .error mark p.imprint, fun heq => ?_⟩
    have hev : EvaluatorTracks (.unless mark p.imprint)
        (evaluateWith style (.marking style c mark) e.limit)
        (evaluateWith style (.only p (.error mark p.imprint)) e.limit) := tracks_only hp e.limit
    have htracks := (hev e.frame e.expr).of_eq_error hmarked
    rw [heq, outcome, hout] at htracks
    obtain ⟨hfault, -⟩ : fault = mark ∧ m' = p.imprint := by
      simpa [failureOf] using htracks rfl rfl
    exact hne hfault

end Keel
