import Keel.Proofs.Identity.Keeping
import Keel.Proofs.Involvement

/-! # Evaluation keeps heaps

Every form and every call keeps a heap that knows of the pairs in its operands, and
so does evaluation. What takes place in an evaluation is known to a later heap: else
the mark it may leave behind could be a store that no heap backs.
-/

namespace Keel

namespace Heap

/-! ## Forms -/

/-- The evaluator at most makes pairs, whichever have been made when it is asked. -/
def Serves (h : Heap) (ev : Evaluator) : Prop :=
  ∀ h', h.Extends h' → ∀ f expr, h'.Holds expr → h'.Keeps (ev f expr) Holds

theorem Serves.mono {h h' : Heap} {ev : Evaluator} (hev : h.Serves ev) (hh : h.Extends h') :
    h'.Serves ev :=
  fun h'' hh' => hev h'' (hh.trans hh')

section Forms

variable {h : Heap} {ev : Evaluator} {limit : Nat} {f : FrameId} {form : Form}
  {operands body args : List Value} {bindings : List (String × Value)} {style : Style}

theorem keeps_parameters {params : Value} (hparams : h.Holds params) :
    h.Keeps (Form.parameters limit form params) HoldsAll := by
  refine (keeps_properList hparams).bind fun _ _ formals hformals => ?_
  cases formals.find? (!·.isSymbol) with
  | some formal => exact keeps_shown.bind fun _ _ _ _ => keeps_misuse _
  | none =>
    dsimp only
    split
    · exact keeps_pure hformals
    · exact keeps_misuse _

theorem keeps_binding {v : Value} (hv : h.Holds v) :
    h.Keeps (Form.binding form v) fun h' b => h'.Holds b.2 := by
  refine (keeps_properList hv).bind fun h' _ items hitems => ?_
  split
  · next name expr => exact keeps_pure (hitems expr (by simp))
  · exact keeps_misuse _

theorem keeps_bindingsAndBody (ho : h.HoldsAll operands) :
    h.Keeps (Form.bindingsAndBody form operands) fun h' p =>
      (∀ b ∈ p.1, h'.Holds b.2) ∧ h'.HoldsAll p.2 := by
  cases operands with
  | nil => exact keeps_misuse _
  | cons bindings body =>
    obtain ⟨hbindings, hbody⟩ := List.forall_mem_cons.1 ho
    refine (keeps_properList hbindings).bind fun h₁ hh₁ items hitems => ?_
    refine (keeps_mapM (fun h' hh' x hx => keeps_binding ((hitems x hx).mono hh'))
      fun hh' hb => hb.mono hh').bind fun h₂ hh₂ bs hbs => ?_
    exact keeps_pure ⟨hbs, HoldsAll.mono hbody (hh₁.trans hh₂)⟩

theorem keeps_evalQuote (ho : h.HoldsAll operands) : h.Keeps (Form.evalQuote operands) Holds := by
  unfold Form.evalQuote
  split
  · next datum => exact keeps_pure (ho datum (by simp))
  · exact keeps_misuse _

theorem keeps_evalLambda (ho : h.HoldsAll operands) :
    h.Keeps (Form.evalLambda limit f operands) Holds := by
  cases operands with
  | nil => exact keeps_misuse _
  | cons params body =>
    obtain ⟨hparams, hbody⟩ := List.forall_mem_cons.1 ho
    exact (keeps_parameters hparams).bind fun h' hh' formals hformals =>
      keeps_newClosure hformals (HoldsAll.mono hbody hh')

theorem keeps_declareFrame :
    h.Keeps (Form.declareFrame f bindings) fun _ _ => True :=
  keeps_newFrame.bind fun _ _ _ _ =>
    (keeps_mapM (fun _ _ _ _ => keeps_declare) fun _ _ => trivial).bind fun _ _ _ _ =>
      keeps_pure trivial

section Evaluator

variable (hev : h.Serves ev)
include hev

theorem Serves.keeps {expr : Value} (hexpr : h.Holds expr) : h.Keeps (ev f expr) Holds :=
  hev h (.refl h) f expr hexpr

theorem Serves.keeps_sequence (hb : h.HoldsAll body) : h.Keeps (Form.sequence ev f body) Holds :=
  keeps_foldlM trivial fun h' hh' _ _ x hx => hev h' hh' f x ((hb x hx).mono hh')

theorem Serves.keeps_evalIf (ho : h.HoldsAll operands) :
    h.Keeps (Form.evalIf ev f operands) Holds := by
  unfold Form.evalIf
  split
  · next test yes =>
    refine (hev.keeps (ho test (by simp))).bind fun h' hh' v _ => ?_
    split
    · exact (hev.mono hh').keeps ((ho yes (by simp)).mono hh')
    · exact keeps_pure trivial
  · next test yes no =>
    refine (hev.keeps (ho test (by simp))).bind fun h' hh' v _ => ?_
    split
    · exact (hev.mono hh').keeps ((ho yes (by simp)).mono hh')
    · exact (hev.mono hh').keeps ((ho no (by simp)).mono hh')
  · exact keeps_misuse _

theorem Serves.keeps_evalCond (ho : h.HoldsAll operands) :
    h.Keeps (Form.evalCond ev f operands) Holds := by
  induction operands generalizing h with
  | nil => exact keeps_pure trivial
  | cons clause clauses ih =>
    obtain ⟨hclause, hclauses⟩ := List.forall_mem_cons.1 ho
    cases clause with
    | pair id test body =>
      refine (keeps_properList hclause.2.2).bind fun h₁ hh₁ items hitems => ?_
      have hselect : ∀ h₂, h₁.Extends h₂ → ∀ v, h₂.Holds v →
          h₂.Keeps (if v.isTrue then if items.isEmpty then pure v else Form.sequence ev f items
            else Form.evalCond ev f clauses) Holds := by
        intro h₂ hh₂ v hv
        have hev₂ := hev.mono (hh₁.trans hh₂)
        split
        · split
          · exact keeps_pure hv
          · exact hev₂.keeps_sequence (HoldsAll.mono hitems hh₂)
        · exact ih hev₂ (HoldsAll.mono hclauses (hh₁.trans hh₂))
      by_cases helse : test = .symbol "else"
      · have htrue : h₁.Keeps (pure (.bool true) : Action Value) Holds := keeps_pure trivial
        simpa only [if_pos helse] using htrue.bind hselect
      · simpa only [if_neg helse] using
          ((hev.mono hh₁).keeps (hclause.2.1.mono hh₁)).bind hselect
    | _ => exact keeps_misuse _

theorem Serves.keeps_evalAnd {last : Value} (hlast : h.Holds last) (ho : h.HoldsAll operands) :
    h.Keeps (Form.evalAnd ev f last operands) Holds := by
  induction operands generalizing h last with
  | nil => exact keeps_pure hlast
  | cons expr exprs ih =>
    obtain ⟨hexpr, hexprs⟩ := List.forall_mem_cons.1 ho
    refine (hev.keeps hexpr).bind fun h' hh' v hv => ?_
    split
    · exact ih (hev.mono hh') hv (HoldsAll.mono hexprs hh')
    · exact keeps_pure hv

theorem Serves.keeps_evalOr (ho : h.HoldsAll operands) :
    h.Keeps (Form.evalOr ev f operands) Holds := by
  induction operands generalizing h with
  | nil => exact keeps_pure trivial
  | cons expr exprs ih =>
    obtain ⟨hexpr, hexprs⟩ := List.forall_mem_cons.1 ho
    refine (hev.keeps hexpr).bind fun h' hh' v hv => ?_
    split
    · exact keeps_pure hv
    · exact ih (hev.mono hh') (HoldsAll.mono hexprs hh')

theorem Serves.keeps_evalDefine (ho : h.HoldsAll operands) :
    h.Keeps (Form.evalDefine limit ev f operands) Holds := by
  unfold Form.evalDefine
  split
  · next id name params body =>
    obtain ⟨htarget, hbody⟩ := List.forall_mem_cons.1 ho
    refine (keeps_parameters htarget.2.2).bind fun h₁ hh₁ formals hformals => ?_
    refine (keeps_newClosure hformals (HoldsAll.mono hbody hh₁)).bind fun h₂ _ v hv => ?_
    exact (keeps_define hv).bind fun _ _ _ _ => keeps_pure trivial
  · exact keeps_misuse _
  · next name expr =>
    refine (hev.keeps (ho expr (by simp))).bind fun h₁ _ v hv => ?_
    refine (keeps_named hv).bind fun h₂ _ v hv => ?_
    exact (keeps_define hv).bind fun _ _ _ _ => keeps_pure trivial
  · exact keeps_shown.bind fun _ _ _ _ => keeps_misuse _
  · exact keeps_misuse _

theorem Serves.keeps_evalAssign (ho : h.HoldsAll operands) :
    h.Keeps (Form.evalAssign limit ev f operands) Holds := by
  unfold Form.evalAssign
  split
  · next name expr =>
    refine (hev.keeps (ho expr (by simp))).bind fun h₁ _ v hv => ?_
    exact (keeps_assign hv).bind fun h₂ hh₂ _ _ => keeps_pure (hv.mono hh₂)
  · exact keeps_shown.bind fun _ _ _ _ => keeps_misuse _
  · exact keeps_misuse _

/-! ## Binding forms -/

theorem Serves.keeps_initialiser {name : String} {expr : Value} (hexpr : h.Holds expr) :
    h.Keeps (do Action.named (← ev f expr) name) Holds :=
  (hev.keeps hexpr).bind fun _ _ _ hv => keeps_named hv

theorem Serves.keeps_letFrame (hb : ∀ b ∈ bindings, h.Holds b.2) :
    h.Keeps (Form.letFrame ev f bindings) fun _ _ => True := by
  have hvalues : h.Keeps (bindings.mapM fun b => do Action.named (← ev f b.2) b.1)
      fun h' vs => ∀ v ∈ vs, h'.Holds v :=
    keeps_mapM (fun h' hh' b hb' => (hev.mono hh').keeps_initialiser ((hb b hb').mono hh'))
      fun hh' hv => hv.mono hh'
  refine hvalues.bind fun h₁ _ values hv => ?_
  refine keeps_newFrame.bind fun h₂ hh₂ inner _ => ?_
  refine (keeps_forM fun h' hh' p hp => ?_).bind fun _ _ _ _ => keeps_pure trivial
  exact keeps_define ((hv p.2 (List.of_mem_zip hp).2).mono (hh₂.trans hh'))

theorem Serves.keeps_letStarFrame (hb : ∀ b ∈ bindings, h.Holds b.2) :
    h.Keeps (Form.letStarFrame ev f bindings) fun _ _ => True := by
  have hframes : h.Keeps (bindings.foldlM
      (fun frame b => do
        let v ← Action.named (← ev frame b.2) b.1
        let inner ← Action.newFrame frame
        Action.define inner b.1 v
        return inner) f) fun _ _ => True := by
    refine keeps_foldlM trivial fun h' hh' g _ b hb' => ?_
    refine ((hev.mono hh').keeps ((hb b hb').mono hh')).bind fun h₁ _ v hv => ?_
    refine (keeps_named hv).bind fun h₂ _ v hv => ?_
    refine keeps_newFrame.bind fun h₃ hh₃ inner _ => ?_
    exact (keeps_define (hv.mono hh₃)).bind fun _ _ _ _ => keeps_pure trivial
  exact hframes.bind fun _ _ _ _ => keeps_newFrame

theorem Serves.keeps_initialise {cells : List CellId} (hb : ∀ b ∈ bindings, h.Holds b.2) :
    h.Keeps (Form.initialise ev f cells bindings) fun _ _ => True := by
  refine keeps_forM fun h' hh' p hp => ?_
  have hexpr := (hb p.2 (List.of_mem_zip hp).2).mono hh'
  refine ((hev.mono hh').keeps hexpr).bind fun h₁ _ v hv => ?_
  exact (keeps_named hv).bind fun h₂ _ v hv => keeps_setCell hv p.1

theorem Serves.keeps_letRecFrame (hb : ∀ b ∈ bindings, h.Holds b.2) :
    h.Keeps (Form.letRecFrame ev f bindings) fun _ _ => True := by
  refine keeps_declareFrame.bind fun h₁ hh₁ p _ => ?_
  exact ((hev.mono hh₁).keeps_initialise fun b hb' => (hb b hb').mono hh₁).bind
    fun _ _ _ _ => keeps_pure trivial

theorem Serves.keeps_bindingForm {frameOf : List (String × Value) → Action FrameId}
    (ho : h.HoldsAll operands)
    (hframe : ∀ {h' : Heap} {bindings}, h'.Serves ev → (∀ b ∈ bindings, h'.Holds b.2) →
      h'.Keeps (frameOf bindings) fun _ _ => True) :
    h.Keeps (do
      let (bindings, body) ← Form.bindingsAndBody form operands
      Form.sequence ev (← frameOf bindings) body) Holds := by
  refine (keeps_bindingsAndBody ho).bind fun h₁ hh₁ p ⟨hb, hbody⟩ => ?_
  refine (hframe (hev.mono hh₁) hb).bind fun h₂ hh₂ inner _ => ?_
  exact (hev.mono (hh₁.trans hh₂)).keeps_sequence (HoldsAll.mono hbody hh₂)

theorem Serves.keeps_form (ho : h.HoldsAll operands) :
    h.Keeps (form.eval limit ev f operands) Holds := by
  cases form with
  | quote => exact keeps_evalQuote ho
  | ifElse => exact hev.keeps_evalIf ho
  | cond => exact hev.keeps_evalCond ho
  | and => exact hev.keeps_evalAnd (holds_of_not_isPair rfl) ho
  | or => exact hev.keeps_evalOr ho
  | lambda => exact keeps_evalLambda ho
  | define => exact hev.keeps_evalDefine ho
  | assign => exact hev.keeps_evalAssign ho
  | begin => exact hev.keeps_sequence ho
  | letIn => exact hev.keeps_bindingForm ho fun hev' hb => hev'.keeps_letFrame hb
  | letStar => exact hev.keeps_bindingForm ho fun hev' hb => hev'.keeps_letStarFrame hb
  | letRec => exact hev.keeps_bindingForm ho fun hev' hb => hev'.keeps_letRecFrame hb

end Evaluator

/-! ## Calls -/

theorem holds_apply {op : Arithmetic} {a b : Int} {v : Value} (hv : op.apply a b = .ok v) :
    h.Holds v := by
  cases op with
  | div =>
    simp only [Arithmetic.apply] at hv
    split at hv
    · cases hv
    · obtain rfl := Except.ok.inj hv
      trivial
  | _ =>
    obtain rfl := Except.ok.inj hv
    trivial

theorem keeps_primitiveCall (p : Primitive) (hargs : h.HoldsAll args) :
    h.Keeps (p.call style limit args) Holds := by
  unfold Primitive.call
  split
  · exact keeps_nextChar.bind fun _ _ c _ => by cases c <;> exact keeps_pure trivial
  · refine keeps_looking.bind fun _ _ text _ => ?_
    exact (keeps_write text).bind fun _ _ _ _ => keeps_pure trivial
  · next code =>
    cases Primitive.characterOf? code with
    | some c => exact keeps_pure trivial
    | none =>
      have hnumeral : h.Keeps (Action.ofExcept (Value.numeral code)) fun _ _ => True :=
        keeps_ofExcept fun _ _ => trivial
      exact hnumeral.bind fun _ _ _ _ => keeps_misuse _
  · exact keeps_pure trivial
  · next op a b =>
    cases hop : op.apply a b with
    | ok v => exact keeps_pure (holds_apply hop)
    | error cause => exact keeps_misuse cause
  · exact keeps_newList hargs
  · next a b => exact keeps_newPair (hargs a (by simp)) (hargs b (by simp))
  · next id first rest =>
    have hpair : h.Holds (.pair id first rest) := hargs _ List.mem_cons_self
    exact keeps_pure hpair.2.1
  · next id first rest =>
    have hpair : h.Holds (.pair id first rest) := hargs _ List.mem_cons_self
    exact keeps_pure hpair.2.2
  · exact keeps_pure trivial
  · exact keeps_pure trivial
  · exact keeps_misuse _

theorem keeps_bindFormal {formal arg : Value} (harg : h.Holds arg) :
    h.Keeps (discard (Scope.define limit f formal arg)) fun _ _ => True := by
  have hname : h.Keeps (Scope.bindable limit formal) fun _ _ => True := by
    cases formal with
    | symbol name => exact keeps_pure trivial
    | _ => exact keeps_shown.bind fun _ _ _ _ => keeps_misuse _
  exact (hname.bind fun _ hh name _ =>
    keeps_updating_of_backed fun _ hs => ⟨hs.define (harg.mono hh) f name, trivial⟩).discard

theorem Serves.keeps_closureCall (hev : h.Serves ev) {fn : Closure} (hbody : h.HoldsAll fn.body)
    (hargs : h.HoldsAll args) : h.Keeps (fn.call limit ev args) Holds := by
  unfold Closure.call
  split
  · refine keeps_newFrame.bind fun h₁ hh₁ inner _ => ?_
    refine (keeps_forM fun h' hh' p hp => ?_).bind fun h₂ hh₂ _ _ => ?_
    · exact keeps_bindFormal ((hargs p.2 (List.of_mem_zip hp).2).mono (hh₁.trans hh'))
    · exact (hev.mono (hh₁.trans hh₂)).keeps_sequence (HoldsAll.mono hbody (hh₁.trans hh₂))
  · exact keeps_misuse _

theorem Serves.keeps_call (hev : h.Serves ev) (fn : Value) (hargs : h.HoldsAll args) :
    h.Keeps (fn.call style limit ev args) Holds := by
  cases fn with
  | primitive id p => exact keeps_primitiveCall p hargs
  | closure id =>
    refine keeps_get fun m hm => ?_
    cases hc : m.store.closures[id]? with
    | some c => exact hev.keeps_closureCall (hm.body hc) hargs m hm
    | none => exact keeps_misuse _ m hm
  | _ =>
    exact keeps_looking.bind fun _ _ _ _ => keeps_misuse _

theorem Serves.keeps_application (hev : h.Serves ev) {α : Type} {head : Value}
    {k : Value → List Value → Action α} {post : Heap → α → Prop} (hhead : h.Holds head)
    (ho : h.HoldsAll operands)
    (hk : ∀ h', h.Extends h' → ∀ fn args, h'.Holds fn → h'.HoldsAll args →
      h'.Keeps (k fn args) post) :
    h.Keeps (do k (← ev f head) (← operands.mapM (ev f))) post := by
  refine (hev.keeps hhead).bind fun h₁ hh₁ fn hfn => ?_
  have hargs : h₁.Keeps (operands.mapM (ev f)) HoldsAll :=
    keeps_mapM (fun h' hh' x hx =>
      (hev.mono (hh₁.trans hh')).keeps ((ho x hx).mono (hh₁.trans hh'))) fun hh' hv => hv.mono hh'
  exact hargs.bind fun h₂ hh₂ args hargs => hk h₂ (hh₁.trans hh₂) fn args (hfn.mono hh₂) hargs

/-! ## Expressions -/

theorem Serves.keeps_step (hev : h.Serves ev) {expr : Value} (hexpr : h.Holds expr) :
    h.Keeps (step style limit ev f expr) Holds := by
  unfold step
  split
  · exact keeps_inspecting fun _ hs _ hv => hs.of_lookup hv
  · next id head tail =>
    split
    · next form _ =>
      exact (keeps_properList hexpr.2.2).bind fun h₁ hh₁ operands ho =>
        (hev.mono hh₁).keeps_form ho
    · refine (keeps_properList hexpr.2.2).bind fun h₁ hh₁ operands ho => ?_
      have hev₁ := hev.mono hh₁
      exact hev₁.keeps_application (hexpr.2.1.mono hh₁) ho fun h₂ hh₂ fn args _ hargs =>
        (hev₁.mono hh₂).keeps_call fn hargs
  · exact keeps_pure hexpr

end Forms

/-! ## Evaluation -/

/-- The heap knows of all pairs that the evaluation starts with. -/
structure Admits (h : Heap) (e : Evaluation) : Prop where
  backed : e.machine.store.Backed h
  expr : h.Holds e.expr

variable {h : Heap} {style : Style} {e p : Evaluation} {m : Machine}

/-- Other outcomes of evaluations that no later heap admits do not matter. -/
theorem serves_evaluateWith {override : Override}
    (hnone : ∀ h' e, h.Extends h' → h'.Admits e → override e = none) (limit : Nat) :
    h.Serves (evaluateWith style override limit) := by
  induction limit with
  | zero =>
    intro h' hh' f expr hexpr m hm
    exact (keeps_throw .tooDeep m hm).congr (evaluateWith_zero (hnone h' _ hh' ⟨hm, hexpr⟩))
  | succ limit ih =>
    intro h' hh' f expr hexpr m hm
    exact ((ih.mono hh').keeps_step hexpr m hm).congr
      (evaluateWith_succ (hnone h' _ hh' ⟨hm, hexpr⟩))

theorem serves_evaluate (h : Heap) (style : Style) (limit : Nat) :
    h.Serves (evaluate style limit) := by
  rw [← evaluateWith_none]
  exact serves_evaluateWith (fun _ _ _ _ => rfl) limit

/-- A store in which a pair has an identity that is still free. -/
def unbacked : Store :=
  ⟨#[], #[.pair 0 .nil .nil], #[], 0⟩

theorem not_backed_unbacked (h : Heap) : ¬ unbacked.Backed h := by
  intro hs
  have hpair : h.Holds (.pair 0 .nil .nil) := hs.cell (c := 0) rfl
  have hlt := lt_of_parts_eq_some hpair.1
  rw [← hs.next] at hlt
  exact Nat.lt_irrefl 0 hlt

theorem Admits.of_involves (he : h.Admits e) (hp : e.Involves style p) :
    ∃ h', h.Extends h' ∧ h'.Admits p := by
  -- if no later heap admitted `p`, then its mark might leave any store behind
  refine Classical.byContradiction fun hrefused => ?_
  let mark : Machine := ⟨unbacked, .ofString "", ""⟩
  have hnone : ∀ h' e', h.Extends h' → h'.Admits e' →
      Override.only p (.error .tooDeep mark) e' = none := by
    intro h' e' hh' he'
    refine if_neg ?_
    rintro rfl
    exact hrefused ⟨h', hh', he'⟩
  have hserves : h.Serves (evaluateWith style (.only p (.error .tooDeep mark)) e.limit) :=
    serves_evaluateWith hnone e.limit
  have hkeeps := hserves.keeps (f := e.frame) he.expr e.machine he.backed
  obtain ⟨h', -, hbacked⟩ := hkeeps.of_eq_error (hp.eq_error .tooDeep mark)
  exact not_backed_unbacked h' hbacked

/-- What the operator and some of the operands give is in hand when they are evaluated. -/
theorem Admits.of_operands {limit : Nat} {f : FrameId} {id : Identity} {head tail fn : Value}
    {operands args : List Value} {m₀ m₁ : Machine}
    (he : h.Admits ⟨limit + 1, f, .pair id head tail, m₀⟩) (ho : h.HoldsAll operands)
    (hoperator : evaluate style limit f head m₀ = .ok fn m₁)
    (harguments : operands.mapM (evaluate style limit f) m₁ = .ok args m) :
    ∃ h', h.Extends h' ∧ m.store.Backed h' ∧ h'.Holds fn ∧ h'.HoldsAll args := by
  have hkeeps : h.Keeps (do
      let fn ← evaluate style limit f head
      let args ← operands.mapM (evaluate style limit f)
      return (fn, args)) fun h' p => h'.Holds p.1 ∧ h'.HoldsAll p.2 :=
    (h.serves_evaluate style limit).keeps_application he.expr.2.1 ho
      fun _ _ _ _ hfn hargs => keeps_pure ⟨hfn, hargs⟩
  exact (hkeeps m₀ he.backed).of_eq_ok ((bind_of_eq_ok hoperator).trans (bind_of_eq_ok harguments))

theorem Admits.of_calls {fn : Value} {args : List Value} (he : h.Admits e)
    (hcall : e.Calls style fn args m) :
    ∃ h', h.Extends h' ∧ m.store.Backed h' ∧ h'.Holds fn ∧ h'.HoldsAll args := by
  obtain ⟨-, hparts, hoperator, harguments⟩ := hcall
  exact he.of_operands (he.expr.2.2.items hparts) hoperator harguments

theorem Admits.of_outcome {v : Value} (he : h.Admits e) (hv : e.outcome style = .ok v m) :
    ∃ h', h.Extends h' ∧ m.store.Backed h' ∧ h'.Holds v :=
  ((h.serves_evaluate style e.limit).keeps he.expr e.machine he.backed).of_eq_ok hv

end Heap

end Keel
