import Keel.Proofs.Discipline.Lasting
import Keel.Proofs.Effect.Store

/-! # What evaluation without assignments changes

Where no assignment occurs, evaluation writes in two places only: a definition
binds a name in the frame in which it is evaluated, and the forms that make
frames bind names there. Functions are called in frames of their own, so all that
evaluation can change of what existed before is the frame in which it takes place.
-/

namespace Keel

def Value.mentions (name : String) : Value → Bool
  | .symbol n => n == name
  | .pair _ car cdr => car.mentions name || cdr.mentions name
  | _ => false

/-- No assignment occurs in the value, and no definition if no frame is given for it. -/
structure Value.Unassigning (home : Option FrameId) (v : Value) : Prop where
  assign : v.mentions Form.assign.name = false
  define : home = none → v.mentions Form.define.name = false

/-- Where a symbol stands by itself, it is only looked up or bound. -/
def Value.Harmless (home : Option FrameId) (v : Value) : Prop :=
  v.isSymbol = true ∨ v.Unassigning home

namespace Value.Unassigning

variable {home : Option FrameId} {id : Identity} {first rest tail : Value}

theorem car (h : (Value.pair id first rest).Unassigning home) : first.Unassigning home where
  assign := (Bool.or_eq_false_iff.1 h.assign).1
  define hhome := (Bool.or_eq_false_iff.1 (h.define hhome)).1

theorem cdr (h : (Value.pair id first rest).Unassigning home) : rest.Unassigning home where
  assign := (Bool.or_eq_false_iff.1 h.assign).2
  define hhome := (Bool.or_eq_false_iff.1 (h.define hhome)).2

theorem not_assign : ¬ (Value.pair id (.symbol Form.assign.name) tail).Unassigning home := by
  intro h
  have hhead := h.car.assign
  simp [Value.mentions] at hhead

theorem home_ne_none (h : (Value.pair id (.symbol Form.define.name) tail).Unassigning home) :
    home ≠ none := by
  intro hhome
  have hhead := h.car.define hhome
  simp [Value.mentions] at hhead

end Value.Unassigning

theorem Value.Harmless.unassigning {home : Option FrameId} {id : Identity} {car cdr : Value}
    (h : (Value.pair id car cdr).Harmless home) : (Value.pair id car cdr).Unassigning home :=
  h.resolve_left nofun

namespace Store

variable {home : Option FrameId} {s : Store}

def HarmlessBodies (home : Option FrameId) (s : Store) : Prop :=
  ∀ (id : ClosureId) (c : Closure), s.closures[id]? = some c → ∀ x ∈ c.body, x.Harmless home

theorem HarmlessBodies.newClosure {c : Closure} (h : s.HarmlessBodies home)
    (hc : ∀ x ∈ c.body, x.Harmless home) : (s.newClosure c).2.HarmlessBodies home := by
  intro id c' hid
  rcases of_closures_newClosure hid with rfl | hold
  · exact hc
  · exact h id c' hold

theorem HarmlessBodies.nameClosure (h : s.HarmlessBodies home) (v : Value) (name : String) :
    (s.nameClosure v name).HarmlessBodies home := by
  intro id c' hid
  obtain ⟨c, name', hc, rfl⟩ := of_closures_nameClosure hid
  exact h id c hc

end Store

namespace Discipline

/-- Of the given store at most the given frame changes, as long as no assignment can be met. -/
def effect (s₀ : Store) (home : Option FrameId) : Discipline where
  Good m := s₀.ChangesOnly home m.store ∧ m.store.HarmlessBodies home
  Step _ _ := True
  Fails _ _ m' := s₀.ChangesOnly home m'.store
  Scope f _ := home = none ∨ s₀.Open home f
  Own f _ := s₀.frames.size ≤ f
  Code v _ := v.Harmless home
  Val _ _ := True
  Captured _ _ := True

namespace effect

variable {s₀ : Store} {home : Option FrameId} {m : Machine} {style : Style} {α : Type}

theorem coherent : (effect s₀ home).Coherent where
  refl := trivial
  trans _ _ := trivial
  fails_trans _ hf := hf
  misuse hm := hm.1
  exceeded hm _ := hm.1

theorem keeps_renumbering {g : Store → α × Store} {post : α → Machine → Prop}
    (hm : (effect s₀ home).Good m) (hf : (g m.store).2.frames = m.store.frames)
    (hc : (g m.store).2.cells = m.store.cells) (hcl : (g m.store).2.closures = m.store.closures)
    (hp : post (g m.store).1 { m with store := (g m.store).2 }) :
    (effect s₀ home).Keeps m (Action.updating g) post :=
  keeps_updating rfl trivial ⟨hm.1.of_eq hf hc, fun id c hid => hm.2 id c (hcl ▸ hid)⟩ hp

theorem primitives : (effect s₀ home).Primitives style where
  nextChar hm := ⟨trivial, hm, trivial⟩
  write hm _ _ := ⟨trivial, hm, trivial⟩
  newList hm _ := keeps_renumbering hm rfl rfl rfl trivial
  newPair hm _ _ := keeps_renumbering hm rfl rfl rfl trivial
  val_int := trivial
  val_bool := trivial
  val_ok := trivial
  val_itoc _ := trivial
  val_cat _ _ := trivial
  val_car _ := trivial
  val_cdr _ := trivial

theorem keeps_define {f : FrameId} {name : String} {v : Value} (hm : (effect s₀ home).Good m)
    (hf : s₀.Open home f) :
    (effect s₀ home).Keeps m (Action.define f name v) fun _ _ => True := by
  refine coherent.keeps_discard (keeps_updating rfl trivial ⟨hm.1.define hf name v, ?_⟩ trivial)
  intro id c hid
  exact hm.2 id c (by rwa [← Store.closures_define])

theorem keeps_setCell {c : CellId} {v : Value} (hm : (effect s₀ home).Good m)
    (hc : s₀.Writable home c) :
    (effect s₀ home).Keeps m (Action.updating fun s => ((), s.setCell c v)) fun _ _ => True :=
  keeps_updating rfl trivial ⟨hm.1.setCell hc v, hm.2⟩ trivial

theorem regular : (effect s₀ home).Regular style where
  toCoherent := coherent
  primitives := primitives
  scope_mono _ hf := hf
  own_mono _ hf := hf
  code_mono _ hc := hc
  val_mono _ _ := trivial
  scope_of_own hf := .inr (.inr hf)
  captured_of_scope _ := trivial
  code_car hc := .inr hc.unassigning.car
  code_cdr hc := .inr hc.unassigning.cdr
  val_of_code _ := trivial
  val_nil := trivial
  lookup hm _ _ := (coherent.keeps_inspecting hm fun _ _ => hm.1).imp fun _ _ _ _ => trivial
  newFrame hm _ := keeps_updating rfl trivial ⟨hm.1.newFrame _, hm.2⟩ hm.1.frames_le
  bind hm hf _ _ := keeps_define hm (.inr hf)
  define hm hf hd _ _ := keeps_define hm (hf.resolve_left hd.unassigning.home_ne_none)
  assign _ _ hd _ _ := absurd hd.unassigning Value.Unassigning.not_assign
  newClosure hm _ _ _ _ hb _ :=
    keeps_updating rfl trivial ⟨hm.1.of_eq rfl rfl, hm.2.newClosure hb⟩ trivial
  named {m v name} hm _ _ := by
    refine keeps_named trivial ⟨hm.1.of_eq ?_ ?_, hm.2.nameClosure v name⟩ trivial
    · exact Store.frames_nameClosure ..
    · exact Store.cells_nameClosure ..
  record hm _ hc := ⟨trivial, fun _ _ => .inl rfl, hm.2 _ _ hc⟩

theorem keeps_declareFrame (f : FrameId) (bindings : List (String × Value))
    (hm : (effect s₀ home).Good m) :
    (effect s₀ home).Keeps m (Form.declareFrame f bindings) fun p _ =>
      s₀.frames.size ≤ p.1 ∧ ∀ c ∈ p.2, s₀.Writable home c := by
  refine Discipline.keeps_declareFrame bindings
    (P := fun s => s₀.ChangesOnly home s ∧ s.HarmlessBodies home) ⟨hm.1.newFrame _, hm.2⟩
    (fun s b _ ⟨hs, hbodies⟩ => ⟨hs.declare (.inr hm.1.frames_le) b.1, hbodies⟩)
    fun s hs => ⟨trivial, hs, hm.1.frames_le, fun c hc => .inr ?_⟩
  exact Nat.le_trans hm.1.cells_le (List.mem_range'_1.1 hc).1

theorem lawful (style : Style) : (effect s₀ home).Lawful style where
  toRegular := regular
  letRecFrame {m limit f bindings} hm _ hb hev := by
    have h : (effect s₀ home).Regular style := regular
    exact h.keeps_letRecFrame hev hb (keeps_declareFrame f bindings hm)
      fun hm' hc _ => keeps_setCell hm' hc

theorem changesOnly_evaluate {limit : Nat} {f : FrameId} {expr : Value}
    (hf : home = none ∨ home = some f) (hexpr : expr.Harmless home)
    (hbodies : m.store.HarmlessBodies home) :
    m.store.ChangesOnly home ((evaluate style limit f expr).after m).store := by
  have hkeeps : (effect m.store home).Keeps m (evaluate style limit f expr) _ :=
    (lawful style).evaluate limit ⟨.refl _ _, hbodies⟩ (hf.imp_right .inl) hexpr
  exact hkeeps.after (P := fun m' => m.store.ChangesOnly home m'.store) (fun _ _ hm' => hm'.1)
    fun _ _ hfails => hfails

/-- Functions are called in frames that do not exist yet, so that a call changes nothing that does. -/
theorem changesOnly_call {limit : Nat} {fn : Value} {args : List Value}
    (hbodies : m.store.HarmlessBodies (some m.store.frames.size)) :
    m.store.ChangesOnly (some m.store.frames.size)
      ((fn.call style limit (evaluate style limit) args).after m).store := by
  have h : (effect m.store (some m.store.frames.size)).Lawful style := lawful style
  have hkeeps : (effect m.store (some m.store.frames.size)).Keeps m
      (fn.call style limit (evaluate style limit) args) _ :=
    h.keeps_call (h.evaluate limit) ⟨.refl _ _, hbodies⟩ trivial fun _ _ => trivial
  exact hkeeps.after
    (P := fun m' => m.store.ChangesOnly (some m.store.frames.size) m'.store)
    (fun _ _ hm' => hm'.1) fun _ _ hfails => hfails

end effect

end Discipline

/-! ## Cells of one frame each -/

theorem Store.Separate.lasting : Store.Lasting Store.Separate where
  empty := .empty
  renumber _ hs := hs.of_eq rfl (Nat.le_refl _)
  newFrame outer hs := hs.newFrame outer
  setCell _ _ hs := hs.of_eq rfl (by simp [Store.setCell])
  declare f name hs := hs.declare f name
  define f name v hs := hs.define f name v
  newClosure hs _ := hs.of_eq rfl (Nat.le_refl _)
  nameClosure _ _ hs := hs.of_eq (Store.frames_nameClosure ..) (by simp)

/-- In a session no cell is ever bound in two frames. -/
theorem Session.separate_afterAll (source : Source) (deeds : List (Setup × Session.Deed)) :
    ((start source).afterAll deeds).machine.store.Separate :=
  Store.Separate.lasting.afterAll source deeds

end Keel
