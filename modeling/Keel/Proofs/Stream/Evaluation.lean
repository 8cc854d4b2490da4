import Keel.Proofs.Consumption
import Keel.Proofs.Discipline.Session
import Keel.Proofs.Initialisation.Store

/-! # Evaluation and the source

Programs read the source themselves, through `getchar`. Evaluation advances the
source in both of its outcomes, and it fails only with faults of its own: it
never announces the end of the input, complains about a malformed text or finds
the slot taken.
-/

namespace Keel

def Fault.OfEvaluation (fault : Fault) : Prop :=
  (∃ cause, fault = .misuse cause) ∨ (∃ cause, fault = .unbound cause) ∨ fault.Exceeded

theorem Fault.OfEvaluation.ne_endOfInput {fault : Fault} (h : fault.OfEvaluation) :
    fault ≠ .endOfInput := by
  rintro rfl
  rcases h with ⟨_, h⟩ | ⟨_, h⟩ | h | h <;> exact nomatch h

theorem Fault.OfEvaluation.ne_malformed {fault : Fault} (h : fault.OfEvaluation) (line : Int)
    (cause : Malformation) : fault ≠ .malformed line cause := by
  rintro rfl
  rcases h with ⟨_, h⟩ | ⟨_, h⟩ | h | h <;> exact nomatch h

namespace Discipline

/-- The source advances, and the faults are those of evaluation. -/
def streaming : Discipline where
  Good _ := True
  Step m m' := m.source.AdvancesTo m'.source
  Fails m fault m' := m.source.AdvancesTo m'.source ∧ fault.OfEvaluation
  Scope _ _ := True
  Own _ _ := True
  Code _ _ := True
  Val _ _ := True

namespace streaming

variable {m : Machine} {α : Type} {style : Style}

theorem keeps_updating {g : Store → α × Store} {post : α → Machine → Prop}
    (hp : post (g m.store).1 { m with store := (g m.store).2 }) :
    streaming.Keeps m (Action.updating g) post :=
  Discipline.keeps_updating rfl (.refl _) trivial hp

theorem coherent : streaming.Coherent where
  refl := .refl _
  trans := .trans
  fails_trans hs hf := ⟨hs.trans hf.1, hf.2⟩
  misuse _ := ⟨.refl _, .inl ⟨_, rfl⟩⟩
  exceeded _ he := ⟨.refl _, .inr (.inr he)⟩

theorem primitives : streaming.Primitives style where
  nextChar {m} _ := ⟨m.source.advancesTo_next, trivial, trivial⟩
  write _ _ _ := ⟨.refl _, trivial, trivial⟩
  newList _ _ := keeps_updating trivial
  newPair _ _ _ := keeps_updating trivial
  val_int := trivial
  val_bool := trivial
  val_ok := trivial
  val_itoc _ := trivial
  val_cat _ _ := trivial
  val_car _ := trivial
  val_cdr _ := trivial

theorem keeps_define {f : FrameId} {name : String} {v : Value} :
    streaming.Keeps m (Action.define f name v) fun _ _ => True :=
  coherent.keeps_discard (keeps_updating trivial)

theorem regular : streaming.Regular style where
  toCoherent := coherent
  primitives := primitives
  scope_mono _ _ := trivial
  own_mono _ _ := trivial
  code_mono _ _ := trivial
  val_mono _ _ := trivial
  scope_of_own := id
  captured_of_scope := id
  code_car _ := trivial
  code_cdr _ := trivial
  val_of_code _ := trivial
  val_nil := trivial
  lookup {m f name} hm _ _ := by
    refine (coherent.keeps_inspecting hm fun fault hfault => ?_).imp fun _ _ _ _ => trivial
    refine ⟨.refl m.source, .inr (.inl ?_)⟩
    rcases Store.lookup_eq_error hfault with hread | ⟨hu, -⟩
    · exact ⟨_, hread⟩
    · exact ⟨_, hu⟩
  newFrame _ _ := keeps_updating trivial
  bind _ _ _ _ := keeps_define
  define _ _ _ _ _ := keeps_define
  assign _ _ _ _ _ :=
    keeps_assign (fun _ _ => keeps_updating trivial) ⟨.refl _, .inr (.inl ⟨_, rfl⟩)⟩
  newClosure _ _ _ _ _ _ _ := keeps_updating trivial
  named _ _ _ := keeps_named (.refl _) trivial trivial
  record _ _ _ := ⟨trivial, fun _ _ => trivial, fun _ _ => trivial⟩

theorem lawful (style : Style) : streaming.Lawful style where
  toRegular := regular
  letRecFrame {m limit f bindings} hm hf hb hev := by
    have h : streaming.Regular style := regular
    have hdeclare : streaming.Keeps m (Form.declareFrame f bindings) fun p _ =>
        True ∧ ∀ c ∈ p.2, True :=
      keeps_declareFrame bindings (P := fun _ => True) trivial (fun _ _ _ _ => trivial)
        fun _ _ => ⟨.refl _, trivial, trivial, fun _ _ => trivial⟩
    exact h.keeps_letRecFrame hev hb hdeclare fun _ _ _ => keeps_updating trivial

theorem hosted : streaming.Hosted where
  recover h := ⟨h.1, trivial⟩
  legible _ := trivial
  load _ _ := keeps_updating trivial
  advance _ h := ⟨h, trivial⟩
  write _ _ _ := ⟨.refl _, trivial⟩

theorem keeps_evaluate (style : Style) (limit : Nat) (m : Machine) (f : FrameId) (expr : Value) :
    streaming.Keeps m (evaluate style limit f expr) fun _ _ => True :=
  (lawful style).evaluate limit trivial trivial trivial

end streaming

end Discipline

theorem advancesTo_evaluate (style : Style) (limit : Nat) (m : Machine) (f : FrameId)
    (expr : Value) : m.source.AdvancesTo ((evaluate style limit f expr).after m).source :=
  (Discipline.streaming.keeps_evaluate style limit m f expr).after
    (P := fun m' => m.source.AdvancesTo m'.source) (fun _ hs _ => hs) fun _ _ hf => hf.1

end Keel
