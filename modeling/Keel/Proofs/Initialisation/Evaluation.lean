import Keel.Proofs.Discipline.Evaluation
import Keel.Proofs.Initialisation.Store

/-! # Evaluation initialises its cells

Only a `letrec` makes cells that are not initialised. If it succeeds it has
initialised them all, those of repeated names included; if it fails they remain,
and the closures that its initialisers made may still lead to them. So whether a
failure leaves new cells of that kind depends on which failures are excused.
-/

namespace Keel

/-- Some frame finds for the name a cell that is not initialised. -/
def Store.MeetsUninitialised (s : Store) (name : String) : Prop :=
  ∃ f c, s.findCell? f name = some c ∧ s.Uninitialised c

/-- What a failure leaves behind. New cells that are not initialised are among the excused ones. -/
structure Store.Interrupted (Excused : Fault → CellId → Prop) (s : Store) (fault : Fault)
    (s' : Store) : Prop where
  holdsKeel : s'.HoldsKeel
  kept : ∀ {c : CellId}, s.Initialised c → s'.Initialised c
  settled : ∀ {c : CellId}, s'.Uninitialised c → s.Uninitialised c ∨ Excused fault c
  met : ∀ {name : String}, fault = .unbound (.uninitialised name) → s'.MeetsUninitialised name

namespace Discipline

/-- Only Keel values occur, and no cells remain uninitialised but for excused failures. -/
def initialisation (Excused : Fault → CellId → Prop) : Discipline where
  Good m := m.store.HoldsKeel
  Step m m' := m.store.SettlesInto m'.store
  Fails m fault m' := m.store.Interrupted Excused fault m'.store
  Scope _ _ := True
  Own _ _ := True
  Code v _ := v.isKeel = true
  Val v _ := v.isKeel = true

namespace initialisation

variable {Excused : Fault → CellId → Prop} {m : Machine} {style : Style}

theorem interrupted_refl {s : Store} {fault : Fault} (hs : s.HoldsKeel)
    (hmet : ∀ name, fault = .unbound (.uninitialised name) → s.MeetsUninitialised name) :
    s.Interrupted Excused fault s where
  holdsKeel := hs
  kept := id
  settled := .inl
  met := hmet _

theorem coherent : (initialisation Excused).Coherent where
  refl := .refl _
  trans := .trans
  fails_trans hs hf :=
    ⟨hf.holdsKeel, fun hc => hf.kept (hs.kept hc), fun hc => (hf.settled hc).imp_left hs.settled,
      hf.met⟩
  misuse hm := interrupted_refl hm nofun
  exceeded hm he := interrupted_refl hm fun name hu => by
    subst hu
    rcases he with he | he <;> exact nomatch he

theorem primitives : (initialisation Excused).Primitives style where
  nextChar hm := ⟨.refl _, hm, trivial⟩
  write hm _ _ := ⟨.refl _, hm, trivial⟩
  newList hm hi :=
    keeps_updating rfl (.of_cells rfl) (hm.of_eq rfl rfl rfl) (Value.isKeel_listTo _ hi rfl)
  newPair {m car cdr} hm hcar hcdr := by
    refine keeps_updating rfl (.of_cells rfl) (hm.of_eq rfl rfl rfl) ?_
    show (car.isKeel && cdr.isKeel) = true
    exact Bool.and_eq_true_iff.2 ⟨hcar, hcdr⟩
  val_int := rfl
  val_bool := rfl
  val_ok := rfl
  val_itoc _ := rfl
  val_cat _ _ := rfl
  val_car h := (Bool.and_eq_true_iff.1 h).1
  val_cdr h := (Bool.and_eq_true_iff.1 h).2

theorem keeps_setCell {c : CellId} {v : Value} (hm : m.store.HoldsKeel)
    (hc : c < m.store.cells.size) (hv : v.isKeel = true) :
    (initialisation Excused).Keeps m (Action.updating fun s => ((), s.setCell c v))
      fun _ m' => m'.store.Initialised c :=
  keeps_updating rfl (Store.settlesInto_setCell (Value.ne_absent_of_isKeel hv) c)
    (hm.setCell hv c) (Store.initialised_setCell hc (Value.ne_absent_of_isKeel hv))

theorem keeps_define {f : FrameId} {name : String} {v : Value} (hm : m.store.HoldsKeel)
    (hv : v.isKeel = true) :
    (initialisation Excused).Keeps m (Action.define f name v) fun _ _ => True :=
  coherent.keeps_discard (keeps_updating rfl
    (Store.settlesInto_define (Value.ne_absent_of_isKeel hv) f name) (hm.define hv f name) trivial)

theorem keeps_lookup {f : FrameId} {name : String} (hm : m.store.HoldsKeel) :
    (initialisation Excused).Keeps m (Action.inspecting (·.lookup f name))
      (initialisation Excused).Val := by
  refine (coherent.keeps_inspecting hm fun fault hfault => ?_).imp ?_
  · refine interrupted_refl hm fun name' hname => ?_
    rcases Store.lookup_eq_error hfault with hread | ⟨hu, c, hc, hv⟩
    · exact nomatch hread.symm.trans hname
    · obtain rfl : name = name' := by simpa using hu.symm.trans hname
      exact ⟨f, c, hc, (Store.cell_eq (hm.lt_size_of_findCell? hc)).trans (congrArg some hv)⟩
  · rintro v _ - ⟨rfl, hv⟩
    obtain ⟨c, hc, rfl, hne⟩ := Store.lookup_eq_ok hv
    exact hm.cells (Store.cell_eq (hm.lt_size_of_findCell? hc)) hne

theorem keeps_assign {f : FrameId} {name : String} {v : Value} (hm : m.store.HoldsKeel)
    (hv : v.isKeel = true) :
    (initialisation Excused).Keeps m (Action.assign f name v) fun _ _ => True := by
  refine Discipline.keeps_assign (fun c hc => ?_) (interrupted_refl hm nofun)
  exact (keeps_setCell hm (hm.lt_size_of_findCell? hc) hv).imp fun _ _ _ _ => trivial

theorem regular : (initialisation Excused).Regular style where
  toCoherent := coherent
  primitives := primitives
  scope_mono _ _ := trivial
  own_mono _ _ := trivial
  code_mono _ hv := hv
  val_mono _ hv := hv
  scope_of_own _ := trivial
  captured_of_scope := id
  code_car h := (Bool.and_eq_true_iff.1 h).1
  code_cdr h := (Bool.and_eq_true_iff.1 h).2
  val_of_code h := h
  val_nil := rfl
  lookup hm _ _ := keeps_lookup hm
  newFrame hm _ := keeps_updating rfl (.of_cells rfl) (hm.newFrame _) trivial
  bind hm _ _ hv := keeps_define hm hv
  define hm _ _ _ hv := keeps_define hm hv
  assign hm _ _ _ hv := keeps_assign hm hv
  newClosure hm _ hf _ _ hb _ :=
    keeps_updating rfl (.of_cells rfl) (hm.newClosure ⟨hf, hb⟩) rfl
  named {_ v name} hm hv _ :=
    keeps_named (.of_cells (Store.cells_nameClosure ..)) (hm.nameClosure v name) hv
  record hm _ hc := ⟨trivial, fun _ _ => rfl, (hm.closures hc).2⟩

theorem keeps_initialise {ev : Evaluator} {inner : FrameId} {cells : List CellId}
    {bindings : List (String × Value)} (hev : (initialisation Excused).EvaluatorKeeps ev)
    (hm : m.store.HoldsKeel) (hcells : ∀ c ∈ cells, c < m.store.cells.size)
    (hb : (initialisation Excused).BindingsCode bindings m)
    (hlength : cells.length = bindings.length) :
    (initialisation Excused).Keeps m (Form.initialise ev inner cells bindings) fun _ m' =>
      ∀ c ∈ cells, m'.store.Initialised c := by
  have h : (initialisation Excused).Regular .plain := regular
  have hzip : (initialisation Excused).Keeps m (Form.initialise ev inner cells bindings) fun _ m' =>
      ∀ p ∈ cells.zip bindings, m'.store.Initialised p.1 :=
    h.keeps_initialise hev hm trivial hb
      (fun hstep hm' hc hv => keeps_setCell hm' (Nat.lt_of_lt_of_le (hcells _ hc) hstep.size_le) hv)
      fun hstep hc => hstep.kept hc
  refine hzip.imp fun _ m' _ hall c hc => ?_
  rw [← List.map_fst_zip (Nat.le_of_eq hlength)] at hc
  obtain ⟨p, hp, rfl⟩ := List.mem_map.1 hc
  exact hall p hp

theorem exists_declareFrame (f : FrameId) (bindings : List (String × Value))
    (hm : m.store.HoldsKeel) : ∃ inner cells s,
      Form.declareFrame f bindings m = .ok (inner, cells) { m with store := s } ∧
        s.HoldsKeel ∧ m.store.DeclaresInto s ∧ cells.length = bindings.length ∧
        (∀ c ∈ cells, c < s.cells.size) ∧
        ∀ {c}, s.Uninitialised c → m.store.Uninitialised c ∨ c ∈ cells := by
  obtain ⟨s, ⟨hs, hdeclares⟩, hsize, hdeclare⟩ := Form.declareFrame_eq (m := m) (f := f) bindings
    (P := fun s => s.HoldsKeel ∧ m.store.DeclaresInto s)
    ⟨hm.newFrame _, ⟨id, .inl, Nat.le_refl _⟩⟩
    fun s b _ ⟨hs, hdeclares⟩ => ⟨hs.declare _ b.1, hdeclares.declare _ b.1⟩
  refine ⟨_, _, s, hdeclare, hs, hdeclares, by simp, fun c hc => ?_, fun {c} hc => ?_⟩
  · rw [hsize]
    exact (List.mem_range'_1.1 hc).2
  · refine (hdeclares.declared hc).imp_right fun hle => ?_
    have hlt := hc.lt_size
    rw [hsize] at hlt
    exact List.mem_range'_1.2 ⟨hle, hlt⟩

/-- A `letrec` keeps the discipline if its failures excuse the cells that it has declared. -/
theorem keeps_letRecFrame {ev : Evaluator} {f : FrameId} {bindings : List (String × Value)}
    (hev : (initialisation Excused).EvaluatorKeeps ev) (hm : m.store.HoldsKeel)
    (hb : (initialisation Excused).BindingsCode bindings m)
    (hexcused : ∀ {inner cells m₁ fault m' c},
      Form.declareFrame f bindings m = .ok (inner, cells) m₁ →
      Form.initialise ev inner cells bindings m₁ = .error fault m' → c ∈ cells → Excused fault c) :
    (initialisation Excused).Keeps m (Form.letRecFrame ev f bindings) fun _ _ => True := by
  obtain ⟨inner, cells, s, hdeclare, hs, hdeclares, hlength, hlt, hcells⟩ :=
    exists_declareFrame f bindings hm
  have hinit : (initialisation Excused).Keeps { m with store := s }
      (Form.initialise ev inner cells bindings) _ := keeps_initialise hev hs hlt hb hlength
  unfold Keeps
  rw [Form.letRecFrame_eq hdeclare]
  cases hi : Form.initialise ev inner cells bindings { m with store := s } with
  | error fault m' =>
    have hf := hinit.of_eq_error hi
    refine ⟨hf.holdsKeel, fun hc => hf.kept (hdeclares.kept hc), fun hc => ?_, hf.met⟩
    rcases hf.settled hc with hold | hex
    · exact (hcells hold).imp_right (hexcused hdeclare hi)
    · exact .inr hex
  | ok u m' =>
    obtain ⟨hstep, hm', hall⟩ := hinit.of_eq_ok hi
    refine ⟨⟨fun hc => hstep.kept (hdeclares.kept hc), fun hc => ?_,
      Nat.le_trans hdeclares.size_le hstep.size_le⟩, hm', trivial⟩
    exact (hcells (hstep.settled hc)).resolve_right fun hmem =>
      (hall _ hmem).not_uninitialised hc

theorem lawful (style : Style) : (initialisation fun _ _ => True).Lawful style where
  toRegular := regular
  letRecFrame hm _ hb hev := keeps_letRecFrame hev hm hb fun _ _ _ => trivial

theorem keeps_evaluate {limit : Nat} {f : FrameId} {expr : Value} (hm : m.store.HoldsKeel)
    (hc : expr.isKeel = true) : (initialisation fun _ _ => True).Keeps m
      (evaluate style limit f expr) fun v _ => v.isKeel = true :=
  (lawful style).evaluate limit hm trivial hc

end initialisation

end Discipline

end Keel
