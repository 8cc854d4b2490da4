import Keel.Proofs.Limit
import Keel.Proofs.LetForms.Shape

/-! # Nested `if`

A `cond` does what as many `if`s inside one another do, each with one of its
clauses, and with the body of the clause that is always selected innermost. What
stands behind the clause that is selected is not looked at. The nested form needs
more room, so the two are compared where neither fails for its depth.
-/

namespace Keel

structure Clause where
  test : Value
  body : List Value

namespace Clause

/-- The value is written as the clause, which has a body and whose test is not `else`. -/
structure Written (clause : Clause) (v : Value) : Prop where
  toList? : v.toList? = some (clause.test :: clause.body)
  test_ne : clause.test ≠ .symbol "else"
  body_ne : clause.body ≠ []

/-- The operands of a `cond` with the clauses, and behind them either nothing or a clause that is
always selected and then anything. -/
inductive Operands : (last : Option (List Value)) → List Clause → List Value → Prop
  | nil : Operands none [] []
  | last {v : Value} {body further : List Value} :
      v.toList? = some (.symbol "else" :: body) → body ≠ [] → Operands (some body) [] (v :: further)
  | cons {last : Option (List Value)} {clause : Clause} {clauses : List Clause} {v : Value}
      {operands : List Value} : clause.Written v → Operands last clauses operands →
      Operands last (clause :: clauses) (v :: operands)

/-- The `if`s of the clauses inside one another, which end in a `begin` with the body of the clause
that is always selected, or without an alternative if there is none. -/
inductive Nested : (last : Option (List Value)) → List Clause → Option Value → Prop
  | nil : Nested none [] none
  | last {v : Value} {body : List Value} :
      v.toList? = some (.symbol Form.begin.name :: body) → Nested (some body) [] (some v)
  | cons {last : Option (List Value)} {clause : Clause} {clauses : List Clause} {v yes : Value}
      {alternative : Option Value} :
      v.toList? = some (.symbol Form.ifElse.name :: clause.test :: yes :: alternative.toList) →
      yes.toList? = some (.symbol Form.begin.name :: clause.body) →
      Nested last clauses alternative → Nested last (clause :: clauses) (some v)

end Clause

/-- The value is written as a `cond` with the clauses. -/
def Value.Selects (last : Option (List Value)) (clauses : List Clause) (v : Value) : Prop :=
  ∃ operands, v.toList? = some (.symbol Form.cond.name :: operands) ∧
    Clause.Operands last clauses operands

namespace Form

variable {ev : Evaluator} {f : FrameId}

def evalAlternative (ev : Evaluator) (f : FrameId) : Option Value → Action Value
  | none => return .nil
  | some expr => ev f expr

theorem evalIf_eq (test yes : Value) (alternative : Option Value) :
    evalIf ev f (test :: yes :: alternative.toList) = (do
      if (← ev f test).isTrue then ev f yes else evalAlternative ev f alternative) := by
  cases alternative <;> rfl

theorem evalCond_else {v : Value} {body further : List Value}
    (hv : v.toList? = some (.symbol "else" :: body)) (hbody : body ≠ []) :
    evalCond ev f (v :: further) = sequence ev f body := by
  obtain ⟨id, cdr, rfl, hcdr⟩ := Value.toList?_eq_cons hv
  have hsome : body.isEmpty = false := by simpa using hbody
  simp only [evalCond, Action.properList_of_eq_some _ hcdr, pure_bind, if_true, Value.isTrue, hsome,
    Bool.false_eq_true, if_false]

theorem evalCond_cons {clause : Clause} {v : Value} {operands : List Value} (h : clause.Written v) :
    evalCond ev f (v :: operands) = (do
      if (← ev f clause.test).isTrue then sequence ev f clause.body
      else evalCond ev f operands) := by
  obtain ⟨hv, htest, hbody⟩ := h
  obtain ⟨id, cdr, rfl, hcdr⟩ := Value.toList?_eq_cons hv
  have hsome : clause.body.isEmpty = false := by simpa using hbody
  simp only [evalCond, Action.properList_of_eq_some _ hcdr, pure_bind, if_neg htest, hsome,
    Bool.false_eq_true, if_false]

end Form

variable {style : Style} {limit limit' : Nat} {f : FrameId} {m : Machine}
  {last : Option (List Value)} {clauses : List Clause}

/-- With room for one more evaluation for each clause and for the `begin` in it, the nested form
does what a `cond` does. -/
theorem Clause.Nested.tracks {alternative : Option Value} {operands : List Value}
    (hnested : Clause.Nested last clauses alternative)
    (hoperands : Clause.Operands last clauses operands) (h : limit + clauses.length + 1 ≤ limit') :
    Tracks Departure.tooDeep (Form.evalCond (evaluate style limit) f operands)
      (Form.evalAlternative (evaluate style limit') f alternative) := by
  -- The induction is on the clauses. Each `if` leaves one level less to those inside it, while the
  -- `cond` evaluates all tests and bodies at one level.
  induction hnested generalizing operands limit' with
  | nil =>
    cases hoperands
    exact Departure.closed_after.refl _
  | @last v body hv =>
    obtain ⟨room, rfl⟩ : ∃ room, limit' = room + 1 := ⟨limit' - 1, by omega⟩
    have hle : limit ≤ room := by omega
    cases hoperands with
    | last helse hbody =>
      rw [Form.evalCond_else helse hbody, Form.evalAlternative, evaluate, step_form hv, Form.eval]
      exact tracks_iff_couples.2 <|
        (lawful_tooDeep style hle).sequence (tracks_evaluate style hle).couples f body
  | @cons last clause clauses v yes alternative hv hyes _ ih =>
    obtain ⟨room, rfl⟩ : ∃ room, limit' = room + 2 := ⟨limit' - 2, by simp at h; omega⟩
    have hroom : limit + clauses.length + 1 ≤ room + 1 := by simp at h; omega
    have hle : limit ≤ room := by omega
    have hlawful := lawful_tooDeep style hle
    have hev := (tracks_evaluate style hle).couples
    cases hoperands with
    | cons hwritten hoperands =>
      rw [Form.evalCond_cons hwritten, Form.evalAlternative, evaluate, step_form hv, Form.eval,
        Form.evalIf_eq]
      have htest := tracks_evaluate style (Nat.le_succ_of_le hle) f clause.test
      refine tracks_iff_couples.2 (hlawful.bind (tracks_iff_couples.1 htest) fun v => ?_)
      split
      · rw [evaluate, step_form hyes, Form.eval]
        exact hlawful.sequence hev f clause.body
      · exact tracks_iff_couples.1 (ih hoperands hroom)

/-- A `cond` and the nested `if`s of its clauses have the same outcome, the store, the output and
the source included, unless one of them fails for its depth. -/
theorem cond_eq_nestedIfs {selection nested : Value} (hselection : selection.Selects last clauses)
    (hnested : Clause.Nested last clauses (some nested))
    (h : ∀ m', evaluate style limit f selection m ≠ .error .tooDeep m')
    (h' : ∀ m', evaluate style limit' f nested m ≠ .error .tooDeep m') :
    evaluate style limit' f nested m = evaluate style limit f selection m := by
  cases limit with
  | zero => exact absurd rfl (h m)
  | succ limit =>
    obtain ⟨operands, hoperator, hoperands⟩ := hselection
    obtain ⟨room, hroom, hroom'⟩ : ∃ room, limit + clauses.length + 1 ≤ room ∧ limit' ≤ room :=
      ⟨limit + clauses.length + 1 + limit', by omega, by omega⟩
    have hstep : evaluate style (limit + 1) f selection =
        Form.evalCond (evaluate style limit) f operands := step_form hoperator
    have htracks : Tracks Departure.tooDeep (evaluate style (limit + 1) f selection)
        (evaluate style room f nested) := hstep ▸ hnested.tracks hoperands hroom
    calc evaluate style limit' f nested m
      _ = evaluate style room f nested m := (evaluate_eq_of_le hroom' h').symm
      _ = evaluate style (limit + 1) f selection m := htracks.eq_of_ne_tooDeep h

/-- The test of the second clause writes `x` and is false, so the last clause is selected, which
writes `x` again; what stands behind it is no clause at all. -/
theorem cond_eq_nestedIfs_assign :
    let m : Machine := ⟨((Store.empty.newFrame none).2.define 0 "x" (.int 1)).2, .ofString "", ""⟩
    let list (items : List Value) : Value := .listTo 0 items .nil
    let write (v : Value) : Value := list [.symbol "set!", .symbol "x", v]
    let clauses : List Clause := [⟨.bool false, [.symbol "y"]⟩, ⟨write .nil, [.symbol "y"]⟩]
    let body : List Value := [write (.int 2), .symbol "x"]
    let written := clauses.map fun c => list (c.test :: c.body)
    let selection := list (.symbol "cond" :: written ++ [list (.symbol "else" :: body), .int 3])
    let unbound := list [.symbol "begin", .symbol "y"]
    let inner := list [.symbol "if", write .nil, unbound, list (.symbol "begin" :: body)]
    let nested := list [.symbol "if", .bool false, unbound, inner]
    (∀ m', evaluate .plain 3 0 selection m ≠ .error .tooDeep m') ∧
      (∀ m', evaluate .plain 9 0 nested m ≠ .error .tooDeep m') ∧
      evaluate .plain 9 0 nested m = evaluate .plain 3 0 selection m ∧
      evaluate .plain 3 0 selection m =
        .ok (.int 2) { m with store := m.store.setCell 0 (.int 2) } := by
  intro m list write clauses body written selection unbound inner nested
  have hselection : selection.Selects (some body) clauses :=
    ⟨_, rfl, .cons ⟨rfl, nofun, nofun⟩ (.cons ⟨rfl, nofun, nofun⟩ (.last rfl nofun))⟩
  have hlast : Clause.Nested (some body) [] (some (list (.symbol "begin" :: body))) := .last rfl
  have hnested : Clause.Nested (some body) clauses (some nested) :=
    .cons (by rfl) (by rfl) (.cons (by rfl) (by rfl) hlast)
  have h : ∀ m', evaluate .plain 3 0 selection m ≠ .error .tooDeep m' :=
    ne_tooDeep_of_failureOf (by decide +kernel)
  have h' : ∀ m', evaluate .plain 9 0 nested m ≠ .error .tooDeep m' :=
    ne_tooDeep_of_failureOf (by decide +kernel)
  exact ⟨h, h', cond_eq_nestedIfs hselection hnested h h', by with_unfolding_all rfl⟩

end Keel
