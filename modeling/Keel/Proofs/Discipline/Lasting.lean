import Keel.Proofs.Discipline.Starts
import Keel.Proofs.Growth.Session
import Keel.Proofs.LetForms.Shape

/-! # Properties of stores that last

What every operation preserves is true of all stores that a session comes to: after
whatever it has been asked for, and at all evaluations that take place meanwhile.
Nothing is asked of the values that operations are given, but that the formals of a
new closure are distinct symbols.
-/

namespace Keel

/-- The formals of the closure are symbols with the names, which are distinct. -/
structure Closure.Takes (names : List String) (c : Closure) : Prop where
  formals_eq : c.formals = names.map .symbol
  nodup : names.Nodup

theorem Closure.exists_takes {c : Closure} (hsymbols : ∀ x ∈ c.formals, x.isSymbol = true)
    (hnodup : c.formals.Nodup) : ∃ names, c.Takes names := by
  obtain ⟨names, hnames⟩ := Value.exists_map_symbol hsymbols
  exact ⟨names, hnames.symm, (hnames ▸ hnodup).of_map _⟩

structure Store.Lasting (P : Store → Prop) : Prop where
  empty : P .empty
  renumber : ∀ {s} id, P s → P { s with nextId := id }
  newFrame : ∀ {s} outer, P s → P (s.newFrame outer).2
  setCell : ∀ {s} c v, P s → P (s.setCell c v)
  declare : ∀ {s} f name, P s → P (s.declare f name).2
  define : ∀ {s} f name v, P s → P (s.define f name v).2
  newClosure : ∀ {s c names}, P s → c.Takes names → P (s.newClosure c).2
  nameClosure : ∀ {s} v name, P s → P (s.nameClosure v name)

/-- The property of the store is maintained, and nothing is said of anything else. -/
def Discipline.lasting (P : Store → Prop) : Discipline where
  Good m := P m.store
  Step _ _ := True
  Fails _ _ m' := P m'.store
  Scope _ _ := True
  Own _ _ := True
  Code _ _ := True
  Val _ _ := True

namespace Store.Lasting

open Discipline

variable {P : Store → Prop} {style : Style} {m : Machine} {α : Type}

theorem keeps_updating {g : Store → α × Store} {post : α → Machine → Prop} (hs : P (g m.store).2)
    (hp : post (g m.store).1 { m with store := (g m.store).2 }) :
    (lasting P).Keeps m (Action.updating g) post :=
  Discipline.keeps_updating rfl trivial hs hp

theorem coherent : (lasting P).Coherent where
  refl := trivial
  trans _ _ := trivial
  fails_trans _ hf := hf
  misuse hm := hm
  exceeded hm _ := hm

variable (h : Lasting P)
include h

theorem primitives : (lasting P).Primitives style where
  nextChar hm := ⟨trivial, hm, trivial⟩
  write hm _ _ := ⟨trivial, hm, trivial⟩
  newList hm _ := keeps_updating (h.renumber _ hm) trivial
  newPair hm _ _ := keeps_updating (h.renumber _ hm) trivial
  val_int := trivial
  val_bool := trivial
  val_ok := trivial
  val_itoc _ := trivial
  val_cat _ _ := trivial
  val_car _ := trivial
  val_cdr _ := trivial

theorem keeps_define {f : FrameId} {name : String} {v : Value} (hm : P m.store) :
    (lasting P).Keeps m (Action.define f name v) fun _ _ => True :=
  coherent.keeps_discard (keeps_updating (h.define f name v hm) trivial)

theorem keeps_setCell {c : CellId} {v : Value} (hm : P m.store) :
    (lasting P).Keeps m (Action.updating fun s => ((), s.setCell c v)) fun _ _ => True :=
  keeps_updating (h.setCell c v hm) trivial

theorem keeps_newClosure {formals body : List Value} {f : FrameId} {name : Option String}
    (hm : P m.store) (hsymbols : ∀ x ∈ formals, x.isSymbol = true) (hnodup : formals.Nodup) :
    (lasting P).Keeps m (Action.newClosure formals body f name) fun _ _ => True := by
  obtain ⟨names, htakes⟩ := Closure.exists_takes (c := ⟨formals, body, f, name⟩) hsymbols hnodup
  exact keeps_updating (h.newClosure hm htakes) trivial

theorem regular : (lasting P).Regular style where
  toCoherent := coherent
  primitives := h.primitives
  scope_mono _ _ := trivial
  own_mono _ _ := trivial
  code_mono _ _ := trivial
  val_mono _ _ := trivial
  scope_of_own _ := trivial
  captured_of_scope _ := trivial
  code_car _ := trivial
  code_cdr _ := trivial
  val_of_code _ := trivial
  val_nil := trivial
  lookup hm _ _ := (coherent.keeps_inspecting hm fun _ _ => hm).imp fun _ _ _ _ => trivial
  newFrame hm _ := keeps_updating (h.newFrame _ hm) trivial
  bind hm _ _ _ := h.keeps_define hm
  define hm _ _ _ _ := h.keeps_define hm
  assign hm _ _ _ _ := keeps_assign (fun _ _ => h.keeps_setCell hm) hm
  newClosure hm _ _ hsymbols hnodup _ _ := h.keeps_newClosure hm hsymbols hnodup
  named hm _ _ := keeps_named trivial (h.nameClosure _ _ hm) trivial
  record _ _ _ := ⟨trivial, fun _ _ => trivial, fun _ _ => trivial⟩

theorem steady (style : Style) : (lasting P).Steady style where
  toRegular := h.regular
  letRecFrame {ev m f bindings} hev hm _ hb := by
    have hdeclare : (lasting P).Keeps m (Form.declareFrame f bindings) fun p _ =>
        True ∧ ∀ c ∈ p.2, True :=
      keeps_declareFrame bindings (P := P) (h.newFrame _ hm) (fun _ b _ hs => h.declare _ b.1 hs)
        fun _ hs => ⟨trivial, hs, trivial, fun _ _ => trivial⟩
    have hregular : (lasting P).Regular style := h.regular
    exact hregular.keeps_letRecFrame hev hb hdeclare fun hm' _ _ => h.keeps_setCell hm'

theorem hosted : (lasting P).Hosted where
  recover hf := ⟨trivial, hf⟩
  legible _ := trivial
  load hm _ := keeps_updating (h.renumber _ hm) trivial
  advance hm _ := ⟨trivial, hm⟩
  write _ hm _ := ⟨trivial, hm⟩

/-! ## The stores that there are -/

theorem start (source : Source) : P (Session.start source).machine.store := by
  have hblank : P Session.blank := h.newFrame none h.empty
  rw [Session.store_start]
  exact Store.register_induction (fun _ _ _ hs => h.define 0 _ _ hs) (fun _ hs => h.define 0 _ _ hs)
    (h.renumber _ hblank)

theorem afterAll (source : Source) (deeds : List (Setup × Session.Deed)) :
    P ((Session.start source).afterAll deeds).machine.store :=
  (reaches_afterAll (fun style => (h.steady style).lawful) h.hosted ⟨h.start source, trivial⟩
    deeds).sound.good

theorem of_starts {setup : Setup} {s : Session} {e : Evaluation} {deed : Session.Deed}
    (hs : P s.machine.store) (hstarts : s.Starts setup e deed) : P e.machine.store :=
  ((h.steady setup.style).lawful.admits_of_starts h.hosted ⟨hs, trivial⟩ deed.onTerms_free
    hstarts).good

section Evaluations

variable {e p : Evaluation} (he : P e.machine.store)
include he

/-- If an evaluation took place on any other store, then its mark could leave that store. -/
theorem of_involves (hp : e.Involves style p) : P p.machine.store := by
  refine Classical.byContradiction fun hnot => ?_
  have hmark : ∀ m, (lasting P).Good m → ¬ (lasting P).Fails m .tooDeep p.machine :=
    fun _ _ hf => hnot hf
  exact hnot ((h.steady style).admits_of_involves hmark ⟨he, trivial, trivial⟩ hp).good

theorem after (style : Style) : P (e.after style).store := by
  have hkeeps : (lasting P).Keeps e.machine (evaluate style e.limit e.frame e.expr) _ :=
    (h.steady style).lawful.evaluate e.limit he trivial trivial
  exact hkeeps.after (P := fun m' => P m'.store) (fun _ _ hm' => hm') fun _ _ hf => hf

theorem of_calls {fn : Value} {args : List Value} (hcall : e.Calls style fn args m) : P m.store :=
  ((h.steady style).lawful.good_of_calls ⟨he, trivial, trivial⟩ hcall).1

end Evaluations

end Store.Lasting

end Keel
