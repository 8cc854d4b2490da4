import Keel.Proofs.Discipline.Session
import Keel.Proofs.Growth.Session
import Keel.Proofs.Initialisation.Store

/-! # Invariants of the store

What every operation on stores preserves is true of all stores that there are.
Some of it is said of the values that a store may hold, which differ from store
to store: a closure belongs to the stores that have its record.
-/

namespace Keel

/-- Something to be said of stores, and of the values that belong to a store. -/
structure Invariant where
  Holds : Store → Prop
  Fits : Store → Value → Prop

namespace Invariant

variable (I : Invariant)

/-- The invariant goes on to hold, and what belonged to the store still does. -/
structure Leads (s s' : Store) : Prop where
  holds : I.Holds s'
  fits : ∀ {v}, I.Fits s v → I.Fits s' v

structure Lawful : Prop where
  empty : I.Holds .empty
  /-- What has no parts and is not a closure belongs to every store. -/
  atom : ∀ {s v}, v.isPair = false → (∀ id, v ≠ .closure id) → I.Fits s v
  pair : ∀ {s id car cdr}, I.Fits s (.pair id car cdr) ↔ I.Fits s car ∧ I.Fits s cdr
  cell : ∀ {s : Store} {c : CellId} {v}, I.Holds s → s.cells[c]? = some v → I.Fits s v
  record : ∀ {s : Store} {id : ClosureId} {c : Closure}, I.Holds s → s.closures[id]? = some c →
    ∀ x ∈ c.body, I.Fits s x
  renumber : ∀ {s} id, I.Holds s → I.Leads s { s with nextId := id }
  newFrame : ∀ {s} outer, I.Holds s → I.Leads s (s.newFrame outer).2
  setCell : ∀ {s v} c, I.Holds s → I.Fits s v → I.Leads s (s.setCell c v)
  declare : ∀ {s} f name, I.Holds s → I.Leads s (s.declare f name).2
  define : ∀ {s v} f name, I.Holds s → I.Fits s v → I.Leads s (s.define f name v).2
  newClosure : ∀ {s} {c : Closure}, I.Holds s → (∀ x ∈ c.formals, I.Fits s x) →
    (∀ x ∈ c.body, I.Fits s x) →
    I.Leads s (s.newClosure c).2 ∧ I.Fits (s.newClosure c).2 (s.newClosure c).1
  nameClosure : ∀ {s} v name, I.Holds s → I.Leads s (s.nameClosure v name)

variable {I} {s : Store}

/-- The invariant holds of the stores, and all values that come up belong to them. -/
def discipline (I : Invariant) : Discipline where
  Good m := I.Holds m.store
  Step m m' := ∀ v, I.Fits m.store v → I.Fits m'.store v
  Fails m _ m' := I.Leads m.store m'.store
  Scope _ _ := True
  Own _ _ := True
  Code v m := I.Fits m.store v
  Val v m := I.Fits m.store v

namespace Lawful

variable {m : Machine} {style : Style} {α : Type}

theorem keeps_updating {g : Store → α × Store} {post : α → Machine → Prop}
    (hs : I.Leads m.store (g m.store).2)
    (hp : post (g m.store).1 { m with store := (g m.store).2 }) :
    I.discipline.Keeps m (Action.updating g) post :=
  Discipline.keeps_updating rfl (fun _ => hs.fits) hs.holds hp

theorem coherent : I.discipline.Coherent where
  refl _ := id
  trans hs hs' v hv := hs' v (hs v hv)
  fails_trans hs hf := ⟨hf.holds, fun hv => hf.fits (hs _ hv)⟩
  misuse hm := ⟨hm, id⟩
  exceeded hm _ := ⟨hm, id⟩

variable (h : I.Lawful)
include h

theorem fits_listTo (id : Identity) {items : List Value} (hitems : ∀ x ∈ items, I.Fits s x)
    {tail : Value} (htail : I.Fits s tail) : I.Fits s (.listTo id items tail) := by
  induction items generalizing id with
  | nil => exact htail
  | cons x items ih =>
    obtain ⟨hx, hrest⟩ := List.forall_mem_cons.1 hitems
    exact h.pair.2 ⟨hx, ih (id + 1) hrest⟩

theorem fits_ofDatum (d : Datum) (id : Identity) : I.Fits s (Value.ofDatum d id).1 := by
  induction d generalizing id with
  | pair car cdr ihcar ihcdr => exact h.pair.2 ⟨ihcar _, ihcdr _⟩
  | _ => exact h.atom rfl nofun

theorem fits_lookup {f : FrameId} {name : String} {v : Value} (hs : I.Holds s)
    (hv : s.lookup f name = .ok v) : I.Fits s v := by
  obtain ⟨c, -, rfl, hne⟩ := Store.lookup_eq_ok hv
  rcases Nat.lt_or_ge c s.cells.size with hlt | hge
  · exact h.cell hs (Store.cell_eq hlt)
  · exact absurd (by simp [Store.cell, Array.getD, Nat.not_lt.2 hge]) hne

theorem primitives : I.discipline.Primitives style where
  nextChar hm := ⟨fun _ => id, hm, trivial⟩
  write hm _ _ := ⟨fun _ => id, hm, trivial⟩
  newList hm hitems :=
    have hleads := h.renumber _ hm
    keeps_updating hleads <|
      h.fits_listTo _ (fun x hx => hleads.fits (hitems x hx)) (h.atom rfl nofun)
  newPair hm hcar hcdr :=
    have hleads := h.renumber _ hm
    keeps_updating hleads (h.pair.2 ⟨hleads.fits hcar, hleads.fits hcdr⟩)
  val_int := h.atom rfl nofun
  val_bool := h.atom rfl nofun
  val_ok := h.atom rfl nofun
  val_itoc _ := h.atom rfl nofun
  val_cat _ _ := h.atom rfl nofun
  val_car hv := (h.pair.1 hv).1
  val_cdr hv := (h.pair.1 hv).2

theorem keeps_define {f : FrameId} {name : String} {v : Value} (hm : I.Holds m.store)
    (hv : I.Fits m.store v) : I.discipline.Keeps m (Action.define f name v) fun _ _ => True :=
  coherent.keeps_discard (keeps_updating (h.define f name hm hv) trivial)

theorem keeps_setCell {c : CellId} {v : Value} (hm : I.Holds m.store) (hv : I.Fits m.store v) :
    I.discipline.Keeps m (Action.updating fun s => ((), s.setCell c v)) fun _ _ => True :=
  keeps_updating (h.setCell c hm hv) trivial

theorem regular : I.discipline.Regular style where
  toCoherent := coherent
  primitives := h.primitives
  scope_mono _ _ := trivial
  own_mono _ _ := trivial
  code_mono hs hc := hs _ hc
  val_mono hs hv := hs _ hv
  scope_of_own _ := trivial
  captured_of_scope _ := trivial
  code_car hc := (h.pair.1 hc).1
  code_cdr hc := (h.pair.1 hc).2
  val_of_code := id
  val_nil := h.atom rfl nofun
  lookup hm _ _ := (coherent.keeps_inspecting hm fun _ _ => ⟨hm, id⟩).imp <| by
    rintro v _ - ⟨rfl, hv⟩
    exact h.fits_lookup hm hv
  newFrame hm _ := keeps_updating (h.newFrame _ hm) trivial
  bind hm _ _ hv := h.keeps_define hm hv
  define hm _ _ _ hv := h.keeps_define hm hv
  assign hm _ _ _ hv := Discipline.keeps_assign (fun _ _ => h.keeps_setCell hm hv) ⟨hm, id⟩
  newClosure hm _ hf _ _ hb _ :=
    have hnew := h.newClosure (c := ⟨_, _, _, _⟩) hm hf hb
    keeps_updating hnew.1 hnew.2
  named {m v name} hm hv _ :=
    have hleads := h.nameClosure v name hm
    Discipline.keeps_named (fun _ => hleads.fits) hleads.holds (hleads.fits hv)
  record hm _ hc := ⟨trivial, fun _ _ => h.atom rfl nofun, h.record hm hc⟩

theorem lawful (style : Style) : I.discipline.Lawful style where
  toRegular := h.regular
  letRecFrame {m limit f bindings} hm _ hb hev := by
    have hdeclare : I.discipline.Keeps m (Form.declareFrame f bindings) fun p _ =>
        True ∧ ∀ c ∈ p.2, True :=
      Discipline.keeps_declareFrame bindings (P := I.Leads m.store) (h.newFrame _ hm)
        (fun s b _ hs =>
          have hnext := h.declare m.store.frames.size b.1 hs.holds
          ⟨hnext.holds, fun hv => hnext.fits (hs.fits hv)⟩)
        fun s hs => ⟨fun _ => hs.fits, hs.holds, trivial, fun _ _ => trivial⟩
    have hr : I.discipline.Regular style := h.regular
    exact hr.keeps_letRecFrame hev hb hdeclare fun hm' _ hv => h.keeps_setCell hm' hv

theorem hosted : I.discipline.Hosted where
  recover hf := ⟨fun _ => hf.fits, hf.holds⟩
  legible _ := trivial
  load hm _ := keeps_updating (h.renumber _ hm) (h.fits_ofDatum _ _)
  advance hm _ := ⟨fun _ => id, hm⟩
  write _ hm _ := ⟨fun _ => id, hm⟩

theorem leads_evaluate {limit : Nat} {f : FrameId} {expr : Value} (hm : I.Holds m.store)
    (hexpr : I.Fits m.store expr) :
    I.Leads m.store ((evaluate style limit f expr).after m).store := by
  have hkeeps : I.discipline.Keeps m (evaluate style limit f expr) _ :=
    (h.lawful style).evaluate limit hm trivial hexpr
  exact hkeeps.after (P := fun m' => I.Leads m.store m'.store) (fun _ hs hm' => ⟨hm', hs _⟩)
    fun _ _ hf => hf

theorem holds_start (source : Source) : I.Holds (Session.start source).machine.store := by
  have hdefine : ∀ {s : Store} (name : String) {v : Value}, v.isPair = false →
      (∀ id, v ≠ .closure id) → I.Holds s → I.Holds (s.define 0 name v).2 :=
    fun name _ hpair hclosure hs => (h.define 0 name hs (h.atom hpair hclosure)).holds
  have hblank : I.Holds Session.blank := (h.newFrame none h.empty).holds
  rw [Session.store_start]
  exact Store.register_induction (fun _ _ _ hs => hdefine _ rfl nofun hs)
    (fun _ hs => hdefine _ rfl nofun hs) (h.renumber _ hblank).holds

theorem holds_afterAll (source : Source) (deeds : List (Setup × Session.Deed)) :
    I.Holds ((Session.start source).afterAll deeds).machine.store :=
  (Discipline.reaches_afterAll h.lawful h.hosted ⟨h.holds_start source, trivial⟩ deeds).sound.good

end Lawful

end Invariant

end Keel
