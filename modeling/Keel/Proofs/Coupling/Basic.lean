import Keel.Evaluation

/-! # Coupled runs

Two computations are run from related states. While the first succeeds the second
does the same, and the states remain related; where the first fails, the coupling
says how the second may end. A first run may also get lost, so that it is no
longer to be compared with the second. Computations that are coupled can be put
one after the other.
-/

namespace Keel

def failureOf {σ α : Type} : EStateM.Result Fault σ α → Option (Fault × σ)
  | .ok .. => none
  | .error fault s => some (fault, s)

theorem eq_error_of_failureOf {σ α : Type} {result : EStateM.Result Fault σ α} {fault : Fault}
    {s : σ} (h : failureOf result = some (fault, s)) : result = .error fault s := by
  cases result with
  | ok v t => exact nomatch h
  | error fault' t =>
    obtain ⟨rfl, rfl⟩ := Prod.mk.inj (Option.some.inj h)
    rfl

/-- What two runs have to do with each other. -/
structure Coupling (σ : Type) where
  /-- The states from which the runs go on together. -/
  Related : σ → σ → Prop
  /-- The states from which the first run is not compared any more. -/
  Lost : σ → Prop
  /-- How the second may end where the first has failed: in a failure, or not. -/
  Departs : Fault → σ → Option (Fault × σ) → Prop

namespace Coupling

variable {σ α β : Type} (C : Coupling σ)

/-- The first run has got lost, so that the second may end anyhow. -/
def Adrift : EStateM.Result Fault σ α → Prop
  | .ok _ s => C.Lost s
  | .error fault s => ∀ e, C.Departs fault s e

/-- The second run ends as it may. -/
def Agrees (result result' : EStateM.Result Fault σ α) : Prop :=
  match result with
  | .ok v s => C.Lost s ∨ ∃ s', result' = .ok v s' ∧ C.Related s s'
  | .error fault s => C.Departs fault s (failureOf result')

/-- From related states the computations agree, and the first one remains lost if it was. -/
structure Couples (a b : EStateM Fault σ α) : Prop where
  adrift : ∀ {s}, C.Lost s → C.Adrift (a s)
  agrees : ∀ {s s'}, C.Related s s' → C.Agrees (a s) (b s')

/-- It is allowed to fail in the same way; where the first got lost, or the second need not fail,
anything is allowed. -/
structure Closed : Prop where
  same : ∀ {fault s s'}, C.Related s s' → C.Departs fault s (some (fault, s'))
  lost : ∀ {fault s e}, C.Lost s → C.Departs fault s e
  onward : ∀ {fault s e}, C.Departs fault s none → C.Departs fault s e

/-- The second run fails as the first does, unless that has got lost. -/
def strict (Related : σ → σ → Prop) (Lost : σ → Prop) : Coupling σ where
  Related := Related
  Lost := Lost
  Departs fault s e := Lost s ∨ ∃ s', e = some (fault, s') ∧ Related s s'

theorem closed_strict {Related : σ → σ → Prop} {Lost : σ → Prop} : (strict Related Lost).Closed where
  same hs := .inr ⟨_, rfl, hs⟩
  lost hs := .inl hs
  onward := by
    rintro fault s e (hlost | ⟨s', h, -⟩)
    · exact .inl hlost
    · exact nomatch h

variable {C}

theorem Adrift.agrees {result result' : EStateM.Result Fault σ α} (h : C.Adrift result) :
    C.Agrees result result' := by
  cases result with
  | ok v s => exact .inl h
  | error fault s => exact h _

theorem Adrift.lost {Related : σ → σ → Prop} {Lost : σ → Prop} {fault : Fault} {s : σ}
    (h : (strict Related Lost).Adrift (.error fault s : EStateM.Result Fault σ α)) : Lost s :=
  (h none).resolve_right fun ⟨_, hnone, _⟩ => nomatch hnone

theorem couples_pure (v : α) : C.Couples (pure v) (pure v) where
  adrift hs := hs
  agrees {_ s'} hs := .inr ⟨s', rfl, hs⟩

namespace Closed

variable (h : C.Closed)
include h

theorem throw (fault : Fault) : C.Couples (throw fault : EStateM Fault σ α) (throw fault) where
  adrift hs _ := h.lost hs
  agrees hs := h.same hs

theorem bind {a b : EStateM Fault σ α} {k l : α → EStateM Fault σ β} (hab : C.Couples a b)
    (hkl : ∀ v, C.Couples (k v) (l v)) : C.Couples (a >>= k) (b >>= l) where
  adrift {s} hs := by
    have hadrift := hab.adrift hs
    cases has : a s with
    | ok v s₁ =>
      rw [has] at hadrift
      rw [bind_of_eq_ok has]
      exact (hkl v).adrift hadrift
    | error fault s₁ =>
      rw [has] at hadrift
      rw [bind_of_eq_error has]
      exact hadrift
  agrees {s s'} hs := by
    have hagrees := hab.agrees hs
    cases has : a s with
    | ok v s₁ =>
      rw [has] at hagrees
      rw [bind_of_eq_ok has]
      rcases hagrees with hlost | ⟨s₁', hbs, hs₁⟩
      · exact ((hkl v).adrift hlost).agrees
      · rw [bind_of_eq_ok hbs]
        exact (hkl v).agrees hs₁
    | error fault s₁ =>
      rw [has] at hagrees
      rw [bind_of_eq_error has]
      cases hbs : b s' with
      | ok w s₁' =>
        rw [hbs] at hagrees
        exact h.onward hagrees
      | error fault' s₁' =>
        rw [hbs] at hagrees
        rw [bind_of_eq_error hbs]
        exact hagrees

theorem mapM {F G : α → EStateM Fault σ β} (items : List α)
    (hFG : ∀ x, C.Couples (F x) (G x)) : C.Couples (items.mapM F) (items.mapM G) := by
  induction items with
  | nil => exact couples_pure []
  | cons x items ih =>
    rw [List.mapM_cons, List.mapM_cons]
    exact h.bind (hFG x) fun _ => h.bind ih fun _ => couples_pure _

theorem forM {F G : α → EStateM Fault σ Unit} (items : List α)
    (hFG : ∀ x, C.Couples (F x) (G x)) : C.Couples (items.forM F) (items.forM G) := by
  induction items with
  | nil => exact couples_pure ()
  | cons x items ih =>
    simp only [List.forM_eq_forM, List.forM_cons] at ih ⊢
    exact h.bind (hFG x) fun _ => ih

theorem foldlM {F G : β → α → EStateM Fault σ β} (items : List α) (b : β)
    (hFG : ∀ b x, C.Couples (F b x) (G b x)) : C.Couples (items.foldlM F b) (items.foldlM G b) := by
  induction items generalizing b with
  | nil => exact couples_pure b
  | cons x items ih =>
    rw [List.foldlM_cons, List.foldlM_cons]
    exact h.bind (hFG b x) ih

end Closed

theorem couples_tryCatch {Related : σ → σ → Prop} {Lost : σ → Prop} {a b : EStateM Fault σ α}
    {k l : Fault → EStateM Fault σ α} (hab : (strict Related Lost).Couples a b)
    (hkl : ∀ fault, (strict Related Lost).Couples (k fault) (l fault)) :
    (strict Related Lost).Couples (tryCatch a k) (tryCatch b l) where
  adrift {s} hs := by
    have hadrift := hab.adrift hs
    cases has : a s with
    | ok v s₁ =>
      rw [has] at hadrift
      rw [tryCatch_of_eq_ok has]
      exact hadrift
    | error fault s₁ =>
      rw [has] at hadrift
      rw [tryCatch_of_eq_error has]
      exact (hkl fault).adrift hadrift.lost
  agrees {s s'} hs := by
    have hagrees := hab.agrees hs
    cases has : a s with
    | ok v s₁ =>
      rw [has] at hagrees
      rw [tryCatch_of_eq_ok has]
      rcases hagrees with hlost | ⟨s₁', hbs, hs₁⟩
      · exact .inl hlost
      · exact .inr ⟨s₁', tryCatch_of_eq_ok hbs, hs₁⟩
    | error fault s₁ =>
      rw [has] at hagrees
      rw [tryCatch_of_eq_error has]
      rcases hagrees with hlost | ⟨s₁', hfails, hs₁⟩
      · exact ((hkl fault).adrift hlost).agrees
      · rw [tryCatch_of_eq_error (eq_error_of_failureOf hfails)]
        exact (hkl fault).agrees hs₁

end Coupling

end Keel
