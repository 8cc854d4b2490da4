import Keel.Proofs.Consumption
import Keel.Proofs.Discipline.Evaluation
import Keel.Proofs.Growth.Store

/-! # Evaluation extends the store

That the store stays well-formed and grows, that input is only consumed and
output only added, is a discipline, and evaluation keeps it in both of its
outcomes. A `letrec` declares its names in a frame that is new, so what existed
before is not affected by it.
-/

namespace Keel

/-- The store grows, input is consumed from its front, output is added at the end. -/
structure Machine.GrowsInto (m m' : Machine) : Prop where
  store : m.store.GrowsInto m'.store
  output : ∃ written, m'.output = m.output ++ written
  source : m'.source.unread <:+ m.source.unread

namespace Machine.GrowsInto

theorem refl (m : Machine) : m.GrowsInto m :=
  ⟨.refl _, ⟨"", by simp⟩, List.suffix_refl _⟩

theorem trans {m m' m'' : Machine} (h : m.GrowsInto m') (h' : m'.GrowsInto m'') :
    m.GrowsInto m'' := by
  obtain ⟨written, hw⟩ := h.output
  obtain ⟨written', hw'⟩ := h'.output
  refine ⟨h.store.trans h'.store, ⟨written ++ written', ?_⟩, h'.source.trans h.source⟩
  rw [hw', hw, String.append_assoc]

theorem of_store {m : Machine} {s : Store} (h : m.store.GrowsInto s) :
    m.GrowsInto { m with store := s } :=
  ⟨h, ⟨"", by simp⟩, List.suffix_refl _⟩

end Machine.GrowsInto

namespace Discipline

/-- The store stays well-formed and everything grows, whatever the outcome. -/
def growth : Discipline where
  Good m := m.store.WellFormed
  Step := Machine.GrowsInto
  Fails m _ m' := m.GrowsInto m' ∧ m'.store.WellFormed
  Scope f m := f < m.store.frames.size
  Own f m := f < m.store.frames.size
  Code _ _ := True
  Val _ _ := True

namespace growth

variable {m : Machine} {α : Type}

theorem keeps_updating {g : Store → α × Store} {post : α → Machine → Prop}
    (hs : m.store.GrowsInto (g m.store).2) (hw : (g m.store).2.WellFormed)
    (hp : post (g m.store).1 { m with store := (g m.store).2 }) :
    growth.Keeps m (Action.updating g) post :=
  Discipline.keeps_updating rfl (.of_store hs) hw hp

theorem coherent : growth.Coherent where
  refl := .refl _
  trans := .trans
  fails_trans hs hf := ⟨hs.trans hf.1, hf.2⟩
  misuse hm := ⟨.refl _, hm⟩
  exceeded hm _ := ⟨.refl _, hm⟩

theorem primitives (style : Style) : growth.Primitives style where
  nextChar {m} hm := ⟨⟨.refl _, ⟨"", by simp⟩, m.source.advancesTo_next.suffix⟩, hm, trivial⟩
  write {m limit v text} hm _ _ := ⟨⟨.refl _, ⟨text, rfl⟩, List.suffix_refl _⟩, hm, trivial⟩
  newList hm _ := keeps_updating (.of_eq rfl rfl (Nat.le_refl _)) (hm.of_eq rfl rfl) trivial
  newPair hm _ _ := keeps_updating (.of_eq rfl rfl (Nat.le_refl _)) (hm.of_eq rfl rfl) trivial
  val_int := trivial
  val_bool := trivial
  val_ok := trivial
  val_itoc _ := trivial
  val_cat _ _ := trivial
  val_car _ := trivial
  val_cdr _ := trivial

theorem keeps_define {f : FrameId} {name : String} {v : Value} (hm : m.store.WellFormed) :
    growth.Keeps m (Action.define f name v) fun _ _ => True :=
  coherent.keeps_discard
    (keeps_updating (m.store.growsInto_define f name v) (hm.define f name v) trivial)

theorem keeps_setCell {c : CellId} {v : Value} (hm : m.store.WellFormed) :
    growth.Keeps m (Action.updating fun s => ((), s.setCell c v)) fun _ _ => True :=
  keeps_updating (m.store.growsInto_setCell c v) (hm.of_eq rfl rfl) trivial

theorem regular (style : Style) : growth.Regular style where
  toCoherent := coherent
  primitives := primitives style
  scope_mono hs hf := Nat.lt_of_lt_of_le hf hs.store.size_le
  own_mono hs hf := Nat.lt_of_lt_of_le hf hs.store.size_le
  code_mono _ _ := trivial
  val_mono _ _ := trivial
  scope_of_own := id
  captured_of_scope := id
  code_car _ := trivial
  code_cdr _ := trivial
  val_of_code _ := trivial
  val_nil := trivial
  lookup hm _ _ :=
    (coherent.keeps_inspecting hm fun _ _ => ⟨.refl _, hm⟩).imp fun _ _ _ _ => trivial
  newFrame {m f} hm hf := by
    refine keeps_updating (m.store.growsInto_newFrame f) (hm.newFrame ?_) ?_
    · rintro g ⟨⟩
      exact hf
    · simp [growth, Store.newFrame]
  bind hm _ _ _ := keeps_define hm
  define hm _ _ _ _ := keeps_define hm
  assign hm _ _ _ _ := keeps_assign (fun _ _ => keeps_setCell hm) ⟨.refl _, hm⟩
  newClosure {m} _ _ _ _ hm hf _ _ _ _ _ :=
    keeps_updating (m.store.growsInto_newClosure _) (hm.newClosure hf) trivial
  named {m v name} hm _ _ :=
    keeps_named (.of_store (m.store.growsInto_nameClosure v name)) (hm.nameClosure v name) trivial
  record hm _ hc := ⟨hm.frame_lt hc, fun _ _ => trivial, fun _ _ => trivial⟩

/-- The frame of a `letrec` is new, so what is declared in it takes nothing away. -/
theorem keeps_declareFrame {f : FrameId} (bindings : List (String × Value))
    (hm : m.store.WellFormed) (hf : f < m.store.frames.size) :
    growth.Keeps m (Form.declareFrame f bindings) fun p m' =>
      growth.Own p.1 m' ∧ ∀ c ∈ p.2, True := by
  have hnew : (m.store.newFrame (some f)).2.WellFormed :=
    hm.newFrame fun g hg => Option.some.inj hg ▸ hf
  refine Discipline.keeps_declareFrame bindings
    (P := fun s => m.store.GrowsInto s ∧ s.WellFormed ∧ m.store.frames.size < s.frames.size)
    ⟨m.store.growsInto_newFrame f, hnew, by simp [Store.newFrame]⟩
    (fun s b _ ⟨hs, hw, hlt⟩ => ⟨hs.declare (Nat.le_refl _) b.1, hw.declare _ b.1, ?_⟩)
    fun s ⟨hs, hw, hlt⟩ => ⟨.of_store hs, hw, hlt, fun _ _ => trivial⟩
  simpa [Store.declare, Store.newCell]

theorem lawful (style : Style) : growth.Lawful style where
  toRegular := regular style
  letRecFrame {_ _ _ bindings} hm hf hb hev :=
    (regular style).keeps_letRecFrame hev hb (keeps_declareFrame bindings hm hf)
      fun hm' _ _ => keeps_setCell hm'

theorem after {a : Action α} {post : α → Machine → Prop} (ha : growth.Keeps m a post) :
    m.GrowsInto (a.after m) ∧ (a.after m).store.WellFormed := by
  refine ha.after (P := fun m' => m.GrowsInto m' ∧ m'.store.WellFormed) ?_ ?_
  · intro m' hs hm'
    exact ⟨hs, hm'⟩
  · intro _ m' hf
    exact hf

end growth

end Discipline

end Keel
