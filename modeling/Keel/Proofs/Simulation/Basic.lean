import Keel.Proofs.Simulation.Renaming

/-! # Runs side by side

Two computations are run on machines whose stores are related, where a closure may
have one number in the first and another one in the second. They go on side by
side if they end in the same way: with values that belong together, or with the
same fault, on machines that are related again. Computations that do so can be put
one after the other.
-/

namespace Keel

/-- Two computations end in the same way: with values and states that belong together, or with the
same fault and states that belong together. -/
inductive SameOutcome {σ α β : Type} (Values : α → β → Prop) (States : σ → σ → Prop) :
    EStateM.Result Fault σ α → EStateM.Result Fault σ β → Prop
  | ok {v : α} {w : β} {s t : σ} : Values v w → States s t →
      SameOutcome Values States (.ok v s) (.ok w t)
  | error {fault : Fault} {s t : σ} : States s t →
      SameOutcome Values States (.error fault s) (.error fault t)

namespace SameOutcome

variable {σ α β : Type} {Values Values' : α → β → Prop} {States States' : σ → σ → Prop}
  {x : EStateM.Result Fault σ α} {y : EStateM.Result Fault σ β} {v : α} {fault : Fault} {s : σ}

theorem imp (h : SameOutcome Values States x y) (hvalues : ∀ v w, Values v w → Values' v w)
    (hstates : ∀ s t, States s t → States' s t) : SameOutcome Values' States' x y := by
  cases h with
  | ok hv hs => exact .ok (hvalues _ _ hv) (hstates _ _ hs)
  | error hs => exact .error (hstates _ _ hs)

theorem exists_of_ok (h : SameOutcome Values States (.ok v s) y) :
    ∃ w t, y = .ok w t ∧ Values v w ∧ States s t := by
  cases h with
  | ok hv hs => exact ⟨_, _, rfl, hv, hs⟩

theorem exists_of_error (h : SameOutcome Values States (.error fault s) y) :
    ∃ t, y = .error fault t ∧ States s t := by
  cases h with
  | error hs => exact ⟨_, rfl, hs⟩

end SameOutcome

/-- What two runs have in common, as far as evaluation can tell. -/
structure Simulation where
  /-- The stores from which the runs go on together. -/
  Related : Store → Store → Prop
  /-- The number that a closure of the first run has in the second one. -/
  number : ClosureId → ClosureId
  /-- What may be evaluated. -/
  Code : Value → Prop
  /-- The cells that may be written. -/
  Free : CellId → Prop

namespace Simulation

variable (S : Simulation)

/-- Machines with related stores, where everything else is the same. -/
structure Machines (m n : Machine) : Prop where
  store : S.Related m.store n.store
  source : n.source = m.source
  output : n.output = m.output

/-- From related machines the computations end in the same way, with values as given by `Values`. -/
def Relates {α β : Type} (Values : α → β → Prop) (a : Action α) (b : Action β) : Prop :=
  ∀ ⦃m n⦄, S.Machines m n → SameOutcome Values S.Machines (a m) (b n)

abbrev Renamed (v w : Value) : Prop :=
  w = v.rename S.number

def AllCode (items : List Value) : Prop :=
  ∀ x ∈ items, S.Code x

def BindingsCode (bindings : List (String × Value)) : Prop :=
  ∀ b ∈ bindings, S.Code (.symbol b.1) ∧ S.Code b.2

def renameBinding (b : String × Value) : String × Value :=
  (b.1, b.2.rename S.number)

def EvaluatorRelates (ev ev' : Evaluator) : Prop :=
  ∀ f {expr}, S.Code expr → S.Relates S.Renamed (ev f expr) (ev' f (expr.rename S.number))

variable {S} {α β γ δ : Type}

/-! ## Putting computations together -/

theorem relates_pure {P : α → β → Prop} {v : α} {w : β} (h : P v w) :
    S.Relates P (pure v) (pure w) :=
  fun _ _ hmn => .ok h hmn

theorem relates_throw {P : α → β → Prop} (fault : Fault) :
    S.Relates P (throw fault) (throw fault) :=
  fun _ _ hmn => .error hmn

theorem relates_misuse {P : α → β → Prop} (cause : Misuse) :
    S.Relates P (Action.misuse cause) (Action.misuse cause) :=
  relates_throw _

theorem relates_bind {P : α → β → Prop} {Q : γ → δ → Prop} {a : Action α} {b : Action β}
    {k : α → Action γ} {l : β → Action δ} (hab : S.Relates P a b)
    (hkl : ∀ v w, P v w → S.Relates Q (k v) (l w)) :
    S.Relates Q (a >>= k) (b >>= l) := by
  intro m n hmn
  have h := hab hmn
  generalize ha : a m = x at h
  generalize hb : b n = y at h
  cases h with
  | ok hv hmn' =>
    rw [bind_of_eq_ok ha, bind_of_eq_ok hb]
    exact hkl _ _ hv hmn'
  | error hmn' =>
    rw [bind_of_eq_error ha, bind_of_eq_error hb]
    exact .error hmn'

theorem relates_discard {P : α → β → Prop} {a : Action α} {b : Action β}
    (h : S.Relates P a b) : S.Relates Eq (discard a) (discard b) :=
  relates_bind h fun _ _ _ => relates_pure rfl

theorem relates_ofExcept {P : α → β → Prop} {f : α → β} (x : Except Fault α)
    (h : ∀ v, P v (f v)) :
    S.Relates P (Action.ofExcept x) (Action.ofExcept (x.map f)) := by
  cases x with
  | ok v => exact relates_pure (h v)
  | error fault => exact relates_throw fault

/-- What is read off the stores may differ as values do. -/
theorem relates_inspecting {P : α → β → Prop} {f : α → β} {x : Store → Except Fault α}
    {y : Store → Except Fault β} (h : ∀ {s t}, S.Related s t → y t = (x s).map f)
    (hf : ∀ v, P v (f v)) : S.Relates P (Action.inspecting x) (Action.inspecting y) := by
  intro m n hmn
  have hx : Action.inspecting x m = Action.ofExcept (x m.store) m := rfl
  have hy : Action.inspecting y n = Action.ofExcept (y n.store) n := rfl
  rw [hx, hy, h hmn.store]
  exact relates_ofExcept _ hf hmn

/-- What is told of the stores is the same. -/
theorem relates_telling {x y : Store → Except Fault α}
    (h : ∀ {s t}, S.Related s t → y t = x s) :
    S.Relates Eq (Action.inspecting x) (Action.inspecting y) := by
  refine relates_inspecting (f := id) (fun hst => ?_) fun _ => rfl
  rw [h hst]
  cases x _ <;> rfl

theorem relates_updating {P : α → β → Prop} {g : Store → α × Store} {g' : Store → β × Store}
    (h : ∀ {s t}, S.Related s t → P (g s).1 (g' t).1 ∧ S.Related (g s).2 (g' t).2) :
    S.Relates P (Action.updating g) (Action.updating g') := by
  intro m n hmn
  obtain ⟨hv, hs⟩ := h hmn.store
  exact .ok hv ⟨hs, hmn.source, hmn.output⟩

theorem relates_nextChar : S.Relates Eq Action.nextChar Action.nextChar := by
  intro m n hmn
  have hm : Action.nextChar m = .ok m.source.next.1 { m with source := m.source.next.2 } := rfl
  have hn : Action.nextChar n = .ok n.source.next.1 { n with source := n.source.next.2 } := rfl
  rw [hm, hn, hmn.source]
  exact .ok rfl ⟨hmn.store, rfl, hmn.output⟩

theorem relates_write (text : String) : S.Relates Eq (Action.write text) (Action.write text) := by
  intro m n hmn
  refine .ok rfl ⟨hmn.store, hmn.source, ?_⟩
  show n.output ++ text = m.output ++ text
  rw [hmn.output]

section Lists

variable {f : α → β} {F : α → Action γ} {G : β → Action δ} (items : List α)

theorem relates_mapM {P : γ → Prop} {g : γ → δ}
    (h : ∀ x ∈ items, S.Relates (fun v w => P v ∧ w = g v) (F x) (G (f x))) :
    S.Relates (fun vs ws => vs.length = items.length ∧ (∀ v ∈ vs, P v) ∧ ws = vs.map g)
      (items.mapM F) ((items.map f).mapM G) := by
  induction items with
  | nil => exact relates_pure ⟨rfl, by simp, rfl⟩
  | cons x items ih =>
    obtain ⟨hx, hitems⟩ := List.forall_mem_cons.1 h
    rw [List.map_cons, List.mapM_cons, List.mapM_cons]
    refine relates_bind hx ?_
    rintro v _ ⟨hv, rfl⟩
    refine relates_bind (ih hitems) ?_
    rintro vs _ ⟨hlength, hvs, rfl⟩
    exact relates_pure ⟨congrArg (· + 1) hlength, List.forall_mem_cons.2 ⟨hv, hvs⟩, rfl⟩

theorem relates_values {F : α → Action Value} {G : β → Action Value}
    (h : ∀ x ∈ items, S.Relates S.Renamed (F x) (G (f x))) :
    S.Relates (fun vs ws => vs.length = items.length ∧ ws = vs.map (Value.rename S.number))
      (items.mapM F) ((items.map f).mapM G) := by
  have hvalues := relates_mapM (P := fun _ => True) (g := Value.rename S.number) items
    fun x hx m n hmn => (h x hx hmn).imp (fun _ _ hv => ⟨trivial, hv⟩) fun _ _ hs => hs
  exact fun m n hmn => (hvalues hmn).imp (fun _ _ hv => ⟨hv.1, hv.2.2⟩) fun _ _ hs => hs

theorem relates_forM {F : α → Action Unit} {G : β → Action Unit}
    (h : ∀ x ∈ items, S.Relates Eq (F x) (G (f x))) :
    S.Relates Eq (items.forM F) ((items.map f).forM G) := by
  induction items with
  | nil => exact relates_pure rfl
  | cons x items ih =>
    obtain ⟨hx, hitems⟩ := List.forall_mem_cons.1 h
    rw [List.map_cons, List.forM_eq_forM, List.forM_eq_forM, List.forM_cons, List.forM_cons]
    exact relates_bind hx fun _ _ _ => ih hitems

theorem relates_foldlM {P : γ → δ → Prop} {F : γ → α → Action γ} {G : δ → β → Action δ}
    {v : γ} {w : δ} (hvw : P v w)
    (h : ∀ x ∈ items, ∀ v w, P v w → S.Relates P (F v x) (G w (f x))) :
    S.Relates P (items.foldlM F v) ((items.map f).foldlM G w) := by
  induction items generalizing v w with
  | nil => exact relates_pure hvw
  | cons x items ih =>
    obtain ⟨hx, hitems⟩ := List.forall_mem_cons.1 h
    rw [List.map_cons, List.foldlM_cons, List.foldlM_cons]
    exact relates_bind (hx v w hvw) fun v' w' hvw' => ih hvw' hitems

end Lists

end Simulation

end Keel
