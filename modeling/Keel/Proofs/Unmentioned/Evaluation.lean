import Keel.Proofs.Simulation.Evaluation
import Keel.Proofs.Unmentioned.Store

/-! # Names that no code mentions

Evaluation reaches the cells of a name through the name only. If it occurs neither
in an expression nor in the code of a closure, then evaluation is the same whatever
is in the cells that are bound to it, and leaves them alone.
-/

namespace Keel

namespace Store

variable {x : String} {s s' t t' s₀ t₀ : Store} {c : Closure}

def CodeOmits (x : String) (s : Store) : Prop :=
  ∀ c ∈ s.closures, ∀ v ∈ c.formals ++ c.body, v.mentions x = false

instance (x : String) (s : Store) : Decidable (s.CodeOmits x) :=
  inferInstanceAs (Decidable (∀ c ∈ s.closures, ∀ v ∈ c.formals ++ c.body, v.mentions x = false))

namespace CodeOmits

variable (h : s.CodeOmits x)
include h

theorem of_eq (hclosures : s'.closures = s.closures) : s'.CodeOmits x := by
  unfold CodeOmits
  rwa [hclosures]

theorem newClosure (hformals : ∀ v ∈ c.formals, v.mentions x = false)
    (hbody : ∀ v ∈ c.body, v.mentions x = false) : (s.newClosure c).2.CodeOmits x := by
  intro c' hc'
  obtain ⟨id, hid⟩ := Array.mem_iff_getElem?.1 hc'
  rcases of_closures_newClosure hid with rfl | hold
  · exact fun v hv => (List.mem_append.1 hv).elim (hformals v) (hbody v)
  · exact h c' (Array.mem_of_getElem? hold)

theorem nameClosure (v : Value) (name : String) : (s.nameClosure v name).CodeOmits x := by
  intro c' hc'
  obtain ⟨id, hid⟩ := Array.mem_iff_getElem?.1 hc'
  obtain ⟨c, name', hc, rfl⟩ := of_closures_nameClosure hid
  exact h c (Array.mem_of_getElem? hc)

end CodeOmits

/-- Two runs from `s₀` and from `t₀` have come to `s` and to `t` without the name. -/
structure Unaware (x : String) (s₀ t₀ s t : Store) : Prop where
  alike : s.AlikeBut x t
  first : s₀.Spares x s
  second : t₀.Spares x t
  omits : s.CodeOmits x

theorem Unaware.step (h : Unaware x s₀ t₀ s t) (halike : s'.AlikeBut x t') (hs : s.Spares x s')
    (ht : t.Spares x t') (homits : s'.CodeOmits x) : Unaware x s₀ t₀ s' t' :=
  ⟨halike, h.first.trans hs, h.second.trans ht, homits⟩

end Store

theorem Value.ne_of_mentions {x name : String} (h : (Value.symbol name).mentions x = false) :
    name ≠ x := by
  simpa [mentions] using h

namespace Simulation

/-- The runs differ in the cells of the name only, which do not occur in the code. -/
def unmentioned (x : String) (s₀ t₀ : Store) : Simulation where
  Related := Store.Unaware x s₀ t₀
  number := id
  Code v := v.mentions x = false
  Free c := ¬ s₀.BoundTo x c

theorem lawful_unmentioned (x : String) (s₀ t₀ : Store) : (unmentioned x s₀ t₀).Lawful where
  injective := Function.injective_id
  code_car hv := (Bool.or_eq_false_iff.1 hv).1
  code_cdr hv := (Bool.or_eq_false_iff.1 hv).2
  frames hst := hst.alike.frames
  nextId hst := hst.alike.nextId
  closure {s t} c hst := by
    show t.closures[c]? = s.closures[c]?.map (·.rename id)
    simp only [hst.alike.closures, Closure.rename_id, Option.map_id']
  record hst hc := by
    have hcode := hst.omits _ (Array.mem_of_getElem? hc)
    exact ⟨fun v hv => hcode v (List.mem_append_left _ hv),
      fun v hv => hcode v (List.mem_append_right _ hv)⟩
  lookup {s t name} f hst hname := by
    have hlookup := hst.alike.lookup hst.first.named (Value.ne_of_mentions hname) f
    show t.lookup f name = (s.lookup f name).map (·.rename id)
    simp only [hlookup, Value.rename_id]
    cases s.lookup f name <;> rfl
  found hst hname hc hb := by
    -- The cell of another name cannot be bound to `x` too, since it has one name only.
    refine Value.ne_of_mentions hname ?_
    exact hst.first.named.once (.of_findCell? hc) (hst.first.bound.2 hb)
  renumber id hst :=
    hst.step (hst.alike.renumber id) (.of_eq hst.first.named rfl rfl)
      (.of_eq hst.second.named rfl rfl) (hst.omits.of_eq rfl)
  setCell {s t c} v hst hc := by
    have hs : ¬ s.BoundTo x c := fun hb => hc (hst.first.bound.1 hb)
    have ht : ¬ t.BoundTo x c := fun hb => hs (hst.alike.boundTo_iff.1 hb)
    show Store.Unaware x s₀ t₀ (s.setCell c v) (t.setCell c (v.rename id))
    rw [Value.rename_id]
    exact hst.step (hst.alike.setCell c v) (.setCell hst.first.named hs v)
      (.setCell hst.second.named ht v) (hst.omits.of_eq rfl)
  bindNew {s t name} f v hst hname := by
    have hne := Value.ne_of_mentions hname
    have hnew : ¬ s₀.BoundTo x s.cells.size := fun hb =>
      Nat.lt_irrefl _ (hst.first.named.bound (hst.first.bound.2 hb))
    show _ ∧ Store.Unaware x s₀ t₀ (s.bindNew f name v) (t.bindNew f name (v.rename id))
    rw [Value.rename_id]
    refine ⟨⟨hnew, hst.alike.size⟩, ?_⟩
    exact hst.step (hst.alike.bindNew hne f v) (.bindNew hst.first.named hne f v)
      (.bindNew hst.second.named hne f v) (hst.omits.of_eq rfl)
  newFrame outer hst :=
    hst.step (hst.alike.newFrame outer) (.newFrame hst.first.named outer)
      (.newFrame hst.second.named outer) (hst.omits.of_eq rfl)
  newClosure {s t c} hst hf hb := by
    show (t.newClosure (c.rename id)).1 = (s.newClosure c).1.rename id ∧
      Store.Unaware x s₀ t₀ (s.newClosure c).2 (t.newClosure (c.rename id)).2
    rw [Closure.rename_id, Value.rename_id]
    refine ⟨by simp only [Store.newClosure, hst.alike.closures], ?_⟩
    exact hst.step (hst.alike.newClosure c) (.of_eq hst.first.named rfl rfl)
      (.of_eq hst.second.named rfl rfl) (hst.omits.newClosure hf hb)
  nameClosure {s t} v name hst := by
    show Store.Unaware x s₀ t₀ (s.nameClosure v name) (t.nameClosure (v.rename id) name)
    rw [Value.rename_id]
    exact hst.step (hst.alike.nameClosure v name)
      (.of_eq hst.first.named (Store.frames_nameClosure ..) (Store.cells_nameClosure ..))
      (.of_eq hst.second.named (Store.frames_nameClosure ..) (Store.cells_nameClosure ..))
      (hst.omits.nameClosure v name)

end Simulation

def Invariant.named : Invariant where
  Holds := Store.Named
  Fits _ _ := True

theorem Invariant.lawful_named : Invariant.named.Lawful where
  empty := .empty
  atom _ _ := trivial
  pair := ⟨fun _ => ⟨trivial, trivial⟩, fun _ => trivial⟩
  cell _ _ := trivial
  record _ _ _ _ := trivial
  renumber _ hs := ⟨hs.of_eq rfl (Nat.le_refl _), id⟩
  newFrame outer hs := ⟨hs.newFrame outer, id⟩
  setCell c hs _ := ⟨hs.setCell c _, id⟩
  declare f name hs := ⟨hs.bindNew f name .absent, id⟩
  define f name hs _ := ⟨hs.define f name _, id⟩
  newClosure hs _ _ := ⟨⟨hs.of_eq rfl (Nat.le_refl _), id⟩, trivial⟩
  nameClosure v name hs := by
    refine ⟨hs.of_eq (Store.frames_nameClosure ..) (Nat.le_of_eq ?_), id⟩
    rw [Store.cells_nameClosure]

/-- If a name occurs neither in the expression nor in the code of a closure, then evaluation is the
same from all stores that are identical but for the cells of the name: it has the same outcome with
the same output and input, and the stores are again identical but for these cells, which keep what
they hold. That no cell is bound under two names is so in every session, and evaluation preserves
it. -/
theorem evaluation_ignores_unmentioned :
    (∀ (style : Style) (limit : Nat) (f : FrameId) (expr : Value) (x : String) (s t : Store)
      (source : Source) (output : String),
      s.Named → s.AlikeBut x t → expr.mentions x = false → s.CodeOmits x →
      SameOutcome Eq
        (fun m n => m.store.AlikeBut x n.store ∧ n.source = m.source ∧ n.output = m.output ∧
          s.Spares x m.store ∧ t.Spares x n.store)
        (evaluate style limit f expr ⟨s, source, output⟩)
        (evaluate style limit f expr ⟨t, source, output⟩)) ∧
    (∀ (style : Style) (limit : Nat) (f : FrameId) (expr : Value) (m : Machine),
      m.store.Named → ((evaluate style limit f expr).after m).store.Named) ∧
    ∀ (source : Source) (deeds : List (Setup × Session.Deed)),
      ((Session.start source).afterAll deeds).machine.store.Named := by
  refine ⟨?_, ?_, Invariant.lawful_named.holds_afterAll⟩
  · intro style limit f expr x s t source output hs halike hexpr homits
    have hstart : (Simulation.unmentioned x s t).Machines ⟨s, source, output⟩ ⟨t, source, output⟩ :=
      ⟨⟨halike, .refl hs, .refl (halike.named hs), homits⟩, rfl, rfl⟩
    have hrun := (Simulation.lawful_unmentioned x s t).evaluate style limit f hexpr hstart
    have hexpr_id : expr.rename (Simulation.unmentioned x s t).number = expr := expr.rename_id
    rw [hexpr_id] at hrun
    refine hrun.imp (fun v w hvw => ?_) fun m n hmn => ?_
    · exact v.rename_id.symm.trans hvw.symm
    · exact ⟨hmn.store.alike, hmn.source, hmn.output, hmn.store.first, hmn.store.second⟩
  · intro style limit f expr m hm
    exact (Invariant.lawful_named.leads_evaluate hm trivial).holds

/-- A function that assigns `y` is called where `x` is bound, once to 1 and once to 7. -/
theorem evaluation_ignores_unmentioned_call :
    let s := ((Store.empty.newFrame none).2.define 0 "x" (.int 1)).2
    let s := (s.define 0 "y" (.int 2)).2
    let body : List Value := [.listTo 0 [.symbol "set!", .symbol "y", .symbol "a"] .nil]
    let s := (s.newClosure ⟨[.symbol "a"], body, 0, none⟩).2
    let t := s.setCell 0 (.int 7)
    let expr : Value := .listTo 3 [.closure 0, .int 5] .nil
    let m : Machine := ⟨s, .ofString "", ""⟩
    s.Named ∧ s.AlikeBut "x" t ∧ t ≠ s ∧
      SameOutcome Eq
        (fun m n => m.store.AlikeBut "x" n.store ∧ n.source = m.source ∧ n.output = m.output ∧
          s.Spares "x" m.store ∧ t.Spares "x" n.store)
        (evaluate .plain 3 0 expr m) (evaluate .plain 3 0 expr { m with store := t }) ∧
      ((evaluate .plain 3 0 expr).after m).store.cells = #[.int 1, .int 5, .int 5] ∧
      ((evaluate .plain 3 0 expr).after { m with store := t }).store.cells =
        #[.int 7, .int 5, .int 5] := by
  intro s₁ s₂ body s t expr m
  have hs₂ : s₂.Named := ((Store.Named.empty.newFrame none).define 0 "x" (.int 1)).define 0 "y" _
  have hs : s.Named := hs₂.of_eq rfl (Nat.le_refl _)
  have hx : s.BoundTo "x" 0 := .of_ownCell? (f := 0) rfl
  have halike : s.AlikeBut "x" t := hx.alikeBut_setCell _
  exact ⟨hs, halike, by decide, evaluation_ignores_unmentioned.1 .plain 3 0 expr "x" s t
    (.ofString "") "" hs halike (by decide) (by decide), by decide +kernel, by decide +kernel⟩

end Keel
