import Keel.Proofs.Coupling.Session
import Keel.Proofs.Reading

/-! # A higher limit

The limit on nesting shows in one way only: what goes deeper fails. No computation
looks at the limit otherwise, and none goes on after such a failure. So a run that
does not fail for its depth is the same run under every higher limit.
-/

namespace Keel

variable {limit limit' : Nat}

/-! ## Reading -/

namespace Datum

variable {stack : List Opening} {s : Source}

theorem Progress.opening_eq_of_le {o : Opening} (h : limit ≤ limit')
    (hs : ∀ t, opening limit o stack s ≠ .failed .tooDeep t) :
    opening limit' o stack s = opening limit o stack s := by
  unfold opening at hs ⊢
  by_cases hroom : stack.length < limit
  · rw [if_pos hroom, if_pos (show stack.length < limit' by omega)]
  · rw [if_neg hroom] at hs
    exact absurd rfl (hs s)

theorem advance_eq_of_le (h : limit ≤ limit')
    (hs : ∀ t, advance limit stack s ≠ .failed .tooDeep t) :
    advance limit' stack s = advance limit stack s := by
  rcases hn : s.skipBlanks.next with ⟨_ | c, after⟩
  · simp only [advance, hn]
  · simp only [advance, hn] at hs ⊢
    by_cases hopen : c = '('
    · simp only [if_pos hopen] at hs ⊢
      exact Progress.opening_eq_of_le h hs
    by_cases hquote : c = '\''
    · subst hquote
      exact Progress.opening_eq_of_le h hs
    · simp only [if_neg hopen, if_neg hquote]

theorem resume_eq_of_le (h : limit ≤ limit') (hs : (resume limit stack s).1 ≠ .error .tooDeep) :
    resume limit' stack s = resume limit stack s := by
  fun_induction resume limit stack s with
  | case1 stack s stack' t ha ih =>
    have heq : advance limit' stack s = advance limit stack s := by
      apply advance_eq_of_le h
      intro t' hfailed
      cases ha.symm.trans hfailed
    rw [resume_eq limit' stack s, heq, ha]
    exact ih hs
  | case2 stack s d t ha =>
    have heq : advance limit' stack s = advance limit stack s := by
      apply advance_eq_of_le h
      intro t' hfailed
      cases ha.symm.trans hfailed
    rw [resume_eq limit' stack s, heq, ha]
    rfl
  | case3 stack s fault t ha =>
    have heq : advance limit' stack s = advance limit stack s := by
      apply advance_eq_of_le h
      intro t' hfailed
      cases ha.symm.trans hfailed
      exact hs rfl
    rw [resume_eq limit' stack s, heq, ha]
    rfl

theorem read_eq_of_le (h : limit ≤ limit') (hs : (read limit s).1 ≠ .error .tooDeep) :
    read limit' s = read limit s :=
  resume_eq_of_le h hs

end Datum

/-! ## Evaluation -/

abbrev Departure.tooDeep : Departure :=
  Departure.after fun fault _ => fault = .tooDeep

theorem ne_tooDeep_of_failureOf {σ α : Type} {result : EStateM.Result Fault σ α}
    (h : (failureOf result).map Prod.fst ≠ some .tooDeep) (s : σ) : result ≠ .error .tooDeep s := by
  rintro rfl
  exact h rfl

theorem Tracks.eq_of_ne_tooDeep {α : Type} {a b : Action α} {m : Machine}
    (h : Tracks Departure.tooDeep a b) (hdeep : ∀ m', a m ≠ .error .tooDeep m') : b m = a m := by
  refine h.eq_of_after ?_
  rintro fault m' hfails rfl
  exact hdeep m' hfails

theorem tracks_inspecting {α : Type} {f g : Store → Except Fault α}
    (hfg : ∀ s, Outlasts (f s) (g s)) :
    Tracks Departure.tooDeep (Action.inspecting f) (Action.inspecting g) := by
  intro m
  have hf : Action.inspecting f m = Action.ofExcept (f m.store) m := rfl
  have hg : Action.inspecting g m = Action.ofExcept (g m.store) m := rfl
  rw [hf, hg]
  rcases hfg m.store with hdeep | heq
  · rw [hdeep]
    exact .inl rfl
  · rw [heq]
    exact Departure.closed_after.refl (Action.ofExcept (f m.store)) m

theorem lawful_tooDeep (style : Style) (h : limit ≤ limit') :
    Departure.tooDeep.coupling.Lawful style limit limit' where
  toSameStore := Departure.closed_after.sameStore
  nextChar := tracks_iff_couples.1 (Departure.closed_after.refl _)
  write _ := tracks_iff_couples.1 (Departure.closed_after.refl _)
  shown v := tracks_iff_couples.1 (tracks_inspecting fun s => v.outlasts_inspect s.closureName h)
  told v := tracks_iff_couples.1
    (tracks_inspecting fun s => (v.outlasts_inspect s.closureName h).unlessTooLong)
  toldBoth v w := tracks_iff_couples.1 (tracks_inspecting fun s =>
    ((v.outlasts_inspect s.closureName h).bind fun _ =>
      (w.outlasts_inspect s.closureName h).bind fun _ => .refl _).unlessTooLong)
  rendered v := tracks_iff_couples.1 (tracks_inspecting fun s => v.outlasts_render s.closureName h)
  written v := tracks_iff_couples.1
    (tracks_inspecting fun s => style.outlasts s.closureName v h)

/-- The evaluations inside have more room as well, so both limits are taken down together. -/
theorem tracks_evaluate (style : Style) {limit limit' : Nat} (h : limit ≤ limit') :
    EvaluatorTracks Departure.tooDeep (evaluate style limit) (evaluate style limit') := by
  induction limit generalizing limit' with
  | zero => exact fun f expr m => .inl rfl
  | succ limit ih =>
    cases limit' with
    | zero => omega
    | succ limit' =>
      have hle : limit ≤ limit' := by omega
      intro f expr
      exact tracks_iff_couples.2 ((lawful_tooDeep style hle).step (ih hle).couples f expr)

theorem evaluate_eq_of_le {style : Style} {f : FrameId} {expr : Value} {m : Machine}
    (h : limit ≤ limit') (hdeep : ∀ m', evaluate style limit f expr m ≠ .error .tooDeep m') :
    evaluate style limit' f expr m = evaluate style limit f expr m :=
  (tracks_evaluate style h f expr).eq_of_ne_tooDeep hdeep

namespace Session

variable {setup : Setup}

theorem tracks_form (h : setup.limit ≤ limit') (d : Datum) (line : Int) :
    TurnTracks (· = .tooDeep) (fun j j' => j' = j) (accept setup d line >>= evaluateValue setup)
      (accept { setup with limit := limit' } d line >>=
        evaluateValue { setup with limit := limit' }) := by
  have hlawful := lawful_tooDeep setup.style (Operation.inspecting.room_mono h)
  have hev := tracks_evaluate setup.style (Operation.evaluating.room_mono h)
  apply hlawful.onSessions.bind
  · apply hlawful.couples_accept
    rintro text j _ rfl
    rfl
  · apply hlawful.couples_evaluateValue hev.couples
    rintro text text' j _ rfl
    rfl

theorem evaluateOne_eq_of_le (h : setup.limit ≤ limit') (s : Session)
    (hdeep : ∀ s', evaluateOne setup s ≠ .error .tooDeep s') :
    evaluateOne { setup with limit := limit' } s = evaluateOne setup s := by
  revert hdeep
  rw [evaluateOne_eq setup s, evaluateOne_eq { setup with limit := limit' } s]
  have hroom : setup.reading ≤ { setup with limit := limit' }.reading :=
    Operation.reading.room_mono h
  rcases hread : Datum.read setup.reading s.machine.source with ⟨fault | d, source⟩
  · intro hdeep
    have hfault : (Datum.read setup.reading s.machine.source).1 ≠ .error .tooDeep := by
      rw [hread]
      rintro ⟨rfl⟩
      exact hdeep _ rfl
    rw [Datum.read_eq_of_le hroom hfault, hread]
  · intro hdeep
    have hok : (Datum.read setup.reading s.machine.source).1 ≠ .error .tooDeep := by
      rw [hread]
      exact nofun
    rw [Datum.read_eq_of_le hroom hok, hread]
    refine (tracks_form h d source.line).eq_of_after ?_
    rintro fault t hfails rfl
    exact hdeep t hfails

end Session

/-- A limit can only make an answer fail for its depth, never change it: whatever does not fail so
under the lower limit has the same outcome under the higher one, and does the same. -/
theorem limit_only_refuses (h : limit ≤ limit') :
    (∀ style f expr m, (∀ m', evaluate style limit f expr m ≠ .error .tooDeep m') →
      evaluate style limit' f expr m = evaluate style limit f expr m) ∧
    (∀ s, (Datum.read limit s).1 ≠ .error .tooDeep → Datum.read limit' s = Datum.read limit s) ∧
    (∀ names v, Value.render names limit v ≠ .error .tooDeep →
      v.render names limit' = v.render names limit) ∧
    ∀ style logging s, (∀ s', Session.evaluateOne ⟨style, limit, logging⟩ s ≠ .error .tooDeep s') →
      Session.evaluateOne ⟨style, limit', logging⟩ s =
        Session.evaluateOne ⟨style, limit, logging⟩ s := by
  refine ⟨?_, ?_, ?_, ?_⟩
  · intro style f expr m hdeep
    exact evaluate_eq_of_le h hdeep
  · intro s hdeep
    exact Datum.read_eq_of_le h hdeep
  · intro names v hdeep
    exact (v.outlasts_render names h).resolve_left hdeep
  · intro style logging s hdeep
    exact Session.evaluateOne_eq_of_le h s hdeep

/-- A form that prints a list fails neither with room for three nested evaluations nor with more. -/
theorem limit_only_refuses_print :
    let store := (((Store.empty.newFrame none).2).define 0 "print" (.primitive 0 .print)).2
    let s : Session := ⟨⟨store, .ofChars "(print '(a b)) c".toList, ""⟩, 0, []⟩
    112 ≤ 1000 ∧ (∀ s', Session.evaluateOne ⟨.plain, 112, false⟩ s ≠ .error .tooDeep s') ∧
      Session.evaluateOne ⟨.plain, 1000, false⟩ s = Session.evaluateOne ⟨.plain, 112, false⟩ s := by
  intro store s
  have hdeep : ∀ s', Session.evaluateOne ⟨.plain, 112, false⟩ s ≠ .error .tooDeep s' := by
    have hends : (failureOf (Session.evaluateOne ⟨.plain, 112, false⟩ s)).isNone = true := by
      decide +kernel
    intro s' heq
    rw [heq] at hends
    exact Bool.false_ne_true hends
  exact ⟨by decide, hdeep, (limit_only_refuses (by decide)).2.2.2 .plain false s hdeep⟩

end Keel
