import Keel.Proofs.Limit
import Keel.Proofs.LetForms.Shape

/-! # Nested `let`

A `let*` does what as many `let`s inside one another do, each with one of its
bindings, and an innermost one without bindings around the body. The nested form
needs more room, so the two are compared where neither fails for its depth.
-/

namespace Keel

/-- The value is written as a `let` for each binding, inside one another, and one without bindings
around the body. -/
inductive Value.NestsLets (body : List Value) : List (String × Value) → Value → Prop
  | body {v : Value} : v.Binds .letIn [] body → NestsLets body [] v
  | binding {v inner : Value} {b : String × Value} {bindings : List (String × Value)} :
      v.Binds .letIn [b] [inner] → NestsLets body bindings inner → NestsLets body (b :: bindings) v

namespace Form

variable (ev : Evaluator) (f : FrameId)

def bindFrame (b : String × Value) : Action FrameId := do
  let v ← Action.named (← ev f b.2) b.1
  let inner ← Action.newFrame f
  Action.define inner b.1 v
  return inner

theorem letFrame_singleton (b : String × Value) : letFrame ev f [b] = bindFrame ev f b := by
  simp [letFrame, bindFrame]

theorem letStarFrame_cons (b : String × Value) (bindings : List (String × Value)) :
    letStarFrame ev f (b :: bindings) = (do letStarFrame ev (← bindFrame ev f b) bindings) := by
  simp [letStarFrame, bindFrame]

theorem sequence_singleton (expr : Value) : sequence ev f [expr] = ev f expr := by
  simp [sequence]

end Form

variable {style : Style} {limit limit' : Nat} {bindings : List (String × Value)} {body : List Value}

/-- With room for one more evaluation for each binding, the nested form does what a `let*` does. -/
theorem Value.NestsLets.tracks {v : Value} (hv : v.NestsLets body bindings)
    (h : limit + bindings.length ≤ limit') (f : FrameId) :
    Tracks Departure.tooDeep
      (Form.letStarFrame (evaluate style limit) f bindings >>=
        (Form.sequence (evaluate style limit) · body))
      (evaluate style (limit' + 1) f v) := by
  have hle : limit ≤ limit' := by omega
  have hlawful := lawful_tooDeep style hle
  have hev := (tracks_evaluate style hle).couples
  -- The induction is on the nesting. Each `let` leaves one level less to those inside it, while the
  -- `let*` evaluates all its initialisers at one level.
  induction hv generalizing limit' f with
  | body hbinds =>
    rw [evaluate, step_let hbinds, Form.letFrame_nil, ← Form.letStarFrame_nil]
    exact tracks_iff_couples.2 <|
      hlawful.bind (hlawful.letStarFrame hev f []) fun inner => hlawful.sequence hev inner body
  | @binding v inner b bindings hbinds _ ih =>
    obtain ⟨rest, rfl⟩ : ∃ rest, limit' = rest + 1 := ⟨limit' - 1, by simp at h; omega⟩
    have hrest : limit + bindings.length ≤ rest := by simp at h; omega
    have hrest_le : limit ≤ rest := by omega
    rw [evaluate, step_let hbinds, Form.letFrame_singleton, Form.letStarFrame_cons, bind_assoc]
    simp only [Form.sequence_singleton]
    have hframe := hlawful.letFrame hev f [b]
    rw [Form.letFrame_singleton, Form.letFrame_singleton] at hframe
    refine tracks_iff_couples.2 (hlawful.bind hframe fun g => tracks_iff_couples.1 ?_)
    exact ih hrest g hrest_le (lawful_tooDeep style hrest_le)
      (tracks_evaluate style hrest_le).couples

/-- A `let*` and the nested `let`s of its bindings have the same outcome, the store, the output and
the source included, unless one of them fails for its depth. -/
theorem letStar_eq_nestedLets {star nested : Value} (hstar : star.Binds .letStar bindings body)
    (hnested : nested.NestsLets body bindings) {f : FrameId} {m : Machine}
    (h : ∀ m', evaluate style limit f star m ≠ .error .tooDeep m')
    (h' : ∀ m', evaluate style limit' f nested m ≠ .error .tooDeep m') :
    evaluate style limit' f nested m = evaluate style limit f star m := by
  cases limit with
  | zero => exact absurd rfl (h m)
  | succ limit =>
    obtain ⟨room, hroom, hroom'⟩ : ∃ room, limit + bindings.length ≤ room ∧ limit' ≤ room + 1 :=
      ⟨limit + bindings.length + limit', by omega, by omega⟩
    have hstep : evaluate style (limit + 1) f star = _ := step_letStar hstar
    have htracks : Tracks Departure.tooDeep (evaluate style (limit + 1) f star)
        (evaluate style (room + 1) f nested) := hstep ▸ hnested.tracks hroom f
    calc evaluate style limit' f nested m
      _ = evaluate style (room + 1) f nested m := (evaluate_eq_of_le hroom' h').symm
      _ = evaluate style (limit + 1) f star m := htracks.eq_of_ne_tooDeep h

/-- The first initialiser makes a function, which is named, and the second one fails. -/
theorem letStar_eq_nestedLets_unbound :
    let m : Machine := ⟨(Store.empty.newFrame none).2, .ofString "", ""⟩
    let identity : Value := .listTo 0 [.symbol "lambda", .listTo 0 [.symbol "a"] .nil, .symbol "a"] .nil
    let bindings : List (String × Value) := [("f", identity), ("f", .symbol "g")]
    let star : Value := .ofBindings .letStar bindings [.symbol "f"]
    let innermost : Value := .ofBindings .letIn [] [.symbol "f"]
    let inner : Value := .ofBindings .letIn [("f", .symbol "g")] [innermost]
    let nested : Value := .ofBindings .letIn [("f", identity)] [inner]
    (∀ m', evaluate .plain 2 0 star m ≠ .error .tooDeep m') ∧
      (∀ m', evaluate .plain 9 0 nested m ≠ .error .tooDeep m') ∧
      evaluate .plain 9 0 nested m = evaluate .plain 2 0 star m ∧
      (failureOf (evaluate .plain 9 0 nested m)).map (·.2.store.closureName 0) =
        some (some "f") := by
  intro m identity bindings star innermost inner nested
  have hstar : star.Binds .letStar bindings [.symbol "f"] := Value.binds_ofBindings ..
  have hinner : inner.NestsLets [.symbol "f"] [("f", .symbol "g")] :=
    .binding (Value.binds_ofBindings ..) (.body (Value.binds_ofBindings ..))
  have hnested : nested.NestsLets [.symbol "f"] bindings :=
    .binding (Value.binds_ofBindings ..) hinner
  have h : ∀ m', evaluate .plain 2 0 star m ≠ .error .tooDeep m' :=
    ne_tooDeep_of_failureOf (by decide +kernel)
  have h' : ∀ m', evaluate .plain 9 0 nested m ≠ .error .tooDeep m' :=
    ne_tooDeep_of_failureOf (by decide +kernel)
  exact ⟨h, h', letStar_eq_nestedLets hstar hnested h h', by decide +kernel⟩

end Keel
