import Keel.Proofs.Initialisation.Abandonment

/-! # What becomes of cells in the long run

Evaluations follow one another on the same store, and some of them fail. The
store holds Keel values throughout, and the cells that are not initialised in
the end are those that some evaluation has abandoned on the way.
-/

namespace Keel

/-- Evaluations one after the other, the last one first. Each of them finds what the one before it
has left in the store, while the source, the output and the next identity may be others. -/
inductive Runs (style : Style) (s : Store) : List Evaluation → Store → Prop
  | start : Runs style s [] s
  | next {history : List Evaluation} {s' : Store} {e : Evaluation}
      (earlier : Runs style s history s')
      (frames : e.machine.store.frames = s'.frames)
      (closures : e.machine.store.closures = s'.closures)
      (cells : e.machine.store.cells = s'.cells)
      (keel : e.expr.isKeel = true) :
      Runs style s (e :: history) (e.after style).store

variable {style : Style} {s s' : Store} {history : List Evaluation} {c : CellId} {m : Machine}
  {limit : Nat} {f : FrameId} {expr : Value}

theorem Store.HoldsKeel.after_evaluate (hm : m.store.HoldsKeel) (hc : expr.isKeel = true) :
    ((evaluate style limit f expr).after m).store.HoldsKeel ∧
      ∀ c, m.store.Initialised c →
        ((evaluate style limit f expr).after m).store.Initialised c := by
  refine (Discipline.initialisation.keeps_evaluate hm hc).after
    (P := fun m' => m'.store.HoldsKeel ∧ ∀ c, m.store.Initialised c → m'.store.Initialised c) ?_ ?_
  · intro m' hs hm'
    exact ⟨hm', fun c => hs.kept⟩
  · intro fault m' hf
    exact ⟨hf.holdsKeel, fun c => hf.kept⟩

theorem Store.HoldsKeel.of_evaluate_eq_ok {v : Value} {m' : Machine} (hm : m.store.HoldsKeel)
    (hc : expr.isKeel = true) (hout : evaluate style limit f expr m = .ok v m') :
    v.isKeel = true ∧ ∀ c, m'.store.Uninitialised c → m.store.Uninitialised c := by
  obtain ⟨hs, -, hv⟩ := (Discipline.initialisation.keeps_evaluate hm hc).of_eq_ok hout
  exact ⟨hv, fun c => hs.settled⟩

theorem Store.HoldsKeel.meets_of_evaluate_eq_error {name : String} {m' : Machine}
    (hm : m.store.HoldsKeel) (hc : expr.isKeel = true)
    (hout : evaluate style limit f expr m = .error (.unbound (.uninitialised name)) m') :
    m'.store.MeetsUninitialised name :=
  ((Discipline.initialisation.keeps_evaluate hm hc).of_eq_error hout).met rfl

namespace Runs

theorem holdsKeel (h : Runs style s history s') (hs : s.HoldsKeel) : s'.HoldsKeel := by
  induction h with
  | start => exact hs
  | next _ hframes hclosures hcells hkeel ih =>
    exact ((ih.of_eq hframes hclosures hcells).after_evaluate hkeel).1

/-- A cell that is not initialised in the end was not at first, or it has been abandoned. -/
theorem abandoned (h : Runs style s history s') (hs : s.HoldsKeel) (hu : s'.Uninitialised c) :
    s.Uninitialised c ∨
      ∃ e ∈ history, ∃ p : Evaluation, p.Abandons style c ∧ e.Involves style p := by
  induction h with
  | start => exact .inl hu
  | next earlier hframes hclosures hcells hkeel ih =>
    have hm := (earlier.holdsKeel hs).of_eq hframes hclosures hcells
    rcases Evaluation.involves_of_uninitialised hm hkeel hu with hold | hinvolves
    · have hold' : Store.Uninitialised _ c := hold
      rw [Store.Uninitialised, hcells] at hold'
      refine (ih hold').imp_right ?_
      rintro ⟨e, hmem, hinvolves⟩
      exact ⟨e, List.mem_cons_of_mem _ hmem, hinvolves⟩
    · exact .inr ⟨_, List.mem_cons_self, hinvolves⟩

end Runs

/-- Evaluation keeps to Keel values and to initialised cells: in both outcomes what is stored are
Keel values and initialised cells stay so, and evaluation that succeeds gives a Keel value and
leaves no other cells uninitialised than it found. So, if there is none at first, every cell that is
met uninitialised was declared by a `letrec` whose initialisation has failed; the initialisation of
one that is still under way when the cell is met fails with that very fault. -/
theorem evaluation_initialises_cells :
    (∀ (style : Style) (limit : Nat) (m : Machine) (f : FrameId) (expr : Value),
      m.store.HoldsKeel → expr.isKeel = true →
      let m' := (evaluate style limit f expr).after m
      m'.store.HoldsKeel ∧ (∀ c, m.store.Initialised c → m'.store.Initialised c) ∧
        ∀ v m'', evaluate style limit f expr m = .ok v m'' →
          v.isKeel = true ∧ ∀ c, m''.store.Uninitialised c → m.store.Uninitialised c) ∧
    ∀ (style : Style) (s s' : Store) (history : List Evaluation) (e : Evaluation) (name : String)
      (m' : Machine),
      s.HoldsKeel → (∀ c, ¬ s.Uninitialised c) → Runs style s (e :: history) s' →
      e.outcome style = .error (.unbound (.uninitialised name)) m' →
      m'.store.MeetsUninitialised name ∧ ∀ c, m'.store.Uninitialised c →
        ∃ e' ∈ e :: history, ∃ p : Evaluation, p.Abandons style c ∧ e'.Involves style p := by
  constructor
  · intro style limit m f expr hm hc m'
    have hafter : m'.store.HoldsKeel ∧ ∀ c, m.store.Initialised c → m'.store.Initialised c :=
      hm.after_evaluate hc
    exact ⟨hafter.1, hafter.2, fun v m'' hout => hm.of_evaluate_eq_ok hc hout⟩
  · intro style s s' history e name m' hs hnone hruns hout
    have hafter : e.after style = m' := by
      unfold Evaluation.outcome at hout
      rw [Evaluation.after, Action.after, hout]
    cases hruns with
    | next earlier hframes hclosures hcells hkeel =>
      have hm := (earlier.holdsKeel hs).of_eq hframes hclosures hcells
      refine ⟨hm.meets_of_evaluate_eq_error hkeel hout, fun c hu => ?_⟩
      rw [← hafter] at hu
      exact ((earlier.next hframes hclosures hcells hkeel).abandoned hs hu).resolve_left (hnone c)

/-- The initialiser of the first name reads the second one, so both cells are abandoned. -/
theorem evaluation_initialises_cells_letrec :
    let store : Store := ⟨#[⟨[], none⟩], #[], #[], 0⟩
    let m : Machine := ⟨store, .ofString "", ""⟩
    let expr : Value := .listTo 0 [.symbol "letrec",
      .listTo 4 [.listTo 6 [.symbol "a", .symbol "b"] .nil,
        .listTo 8 [.symbol "b", .int 1] .nil] .nil, .symbol "a"] .nil
    let e : Evaluation := ⟨2, 0, expr, m⟩
    store.HoldsKeel ∧ (∀ c, ¬ store.Uninitialised c) ∧
      e.outcome .plain = .error (.unbound (.uninitialised "b")) (e.after .plain) ∧
      (e.after .plain).store.HoldsKeel ∧ (e.after .plain).store.Uninitialised 1 ∧
      ∃ e' ∈ [e], ∃ p : Evaluation, p.Abandons .plain 1 ∧ e'.Involves .plain p := by
  intro store m expr e
  have hs : store.HoldsKeel := Store.holdsKeel_empty.newFrame none
  have hnone : ∀ c, ¬ store.Uninitialised c := nofun
  have hout : e.outcome .plain = .error (.unbound (.uninitialised "b")) (e.after .plain) := by
    with_unfolding_all rfl
  have hu : (e.after .plain).store.Uninitialised 1 := by with_unfolding_all rfl
  have hruns : Runs .plain store [e] (e.after .plain).store := .next .start rfl rfl rfl rfl
  exact ⟨hs, hnone, hout, (evaluation_initialises_cells.1 .plain 2 m 0 expr hs rfl).1, hu,
    (evaluation_initialises_cells.2 .plain store _ [] e "b" _ hs hnone hruns hout).2 1 hu⟩

end Keel
