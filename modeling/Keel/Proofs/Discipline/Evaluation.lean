import Keel.Proofs.Discipline.Primitive

/-! # Evaluation keeps disciplines

A lawful discipline is kept by every special form, by every call and so by
evaluation as a whole. Forms are treated one by one, for any evaluator of the
expressions inside them that keeps the discipline.
-/

namespace Keel

/-! ## Declaring -/

namespace Form

variable {P : Store → Prop} {inner : FrameId}

theorem mapM_declare (bindings : List (String × Value))
    (hP : ∀ s, ∀ b ∈ bindings, P s → P (s.declare inner b.1).2) {m : Machine} (hm : P m.store) :
    ∃ s, P s ∧ s.cells.size = m.store.cells.size + bindings.length ∧
      (bindings.mapM fun (b : String × Value) => Action.updating (·.declare inner b.1)) m =
        .ok (List.range' m.store.cells.size bindings.length) { m with store := s } := by
  induction bindings generalizing m with
  | nil => exact ⟨m.store, hm, rfl, rfl⟩
  | cons b bindings ih =>
    obtain ⟨hhead, htail⟩ := forall_and.1 fun s => List.forall_mem_cons.1 (hP s)
    obtain ⟨s, hs, hlength, heq⟩ := ih htail
      (m := { m with store := (m.store.declare inner b.1).2 }) (hhead m.store hm)
    have hsize : (m.store.declare inner b.1).2.cells.size = m.store.cells.size + 1 := by
      simp [Store.declare, Store.newCell]
    rw [hsize] at hlength heq
    refine ⟨s, hs, by rw [hlength, List.length_cons]; omega, ?_⟩
    rw [List.mapM_cons]
    exact (bind_of_eq_ok rfl).trans (bind_of_eq_ok heq)

/-- The cells declared for bindings are new and numbered in order. What the new frame has at first
and declaring one of the names in it preserves, it has in the end. -/
theorem declareFrame_eq {m : Machine} {f : FrameId} (bindings : List (String × Value))
    (hnew : P (m.store.newFrame (some f)).2)
    (hP : ∀ s, ∀ b ∈ bindings, P s → P (s.declare m.store.frames.size b.1).2) :
    ∃ s, P s ∧ s.cells.size = m.store.cells.size + bindings.length ∧ declareFrame f bindings m =
      .ok (m.store.frames.size, List.range' m.store.cells.size bindings.length)
        { m with store := s } := by
  obtain ⟨s, hs, hsize, heq⟩ := mapM_declare bindings hP
    (m := { m with store := (m.store.newFrame (some f)).2 }) hnew
  refine ⟨s, hs, hsize, ?_⟩
  exact (bind_of_eq_ok rfl).trans (bind_of_eq_ok heq)

theorem letRecFrame_eq {ev : Evaluator} {m m₁ : Machine} {f inner : FrameId} {cells : List CellId}
    {bindings : List (String × Value)}
    (hdeclare : declareFrame f bindings m = .ok (inner, cells) m₁) :
    letRecFrame ev f bindings m = match initialise ev inner cells bindings m₁ with
      | .ok _ m' => .ok inner m'
      | .error fault m' => .error fault m' := by
  refine (bind_of_eq_ok hdeclare).trans ?_
  cases hinit : initialise ev inner cells bindings m₁ with
  | ok u m' => exact bind_of_eq_ok hinit
  | error fault m' => exact bind_of_eq_error hinit

end Form

namespace Discipline

/-- The discipline is kept by every operation on the machine in the places where evaluation performs
it, but for the cells that a `letrec` declares. -/
structure Regular (D : Discipline) (style : Style) : Prop extends D.Coherent where
  primitives : D.Primitives style
  scope_mono : ∀ {m m' f}, D.Step m m' → D.Scope f m → D.Scope f m'
  own_mono : ∀ {m m' f}, D.Step m m' → D.Own f m → D.Own f m'
  code_mono : ∀ {m m' v}, D.Step m m' → D.Code v m → D.Code v m'
  val_mono : ∀ {m m' v}, D.Step m m' → D.Val v m → D.Val v m'
  scope_of_own : ∀ {m f}, D.Own f m → D.Scope f m
  captured_of_scope : ∀ {m f}, D.Scope f m → D.Captured f m
  code_car : ∀ {m id car cdr}, D.Code (.pair id car cdr) m → D.Code car m
  code_cdr : ∀ {m id car cdr}, D.Code (.pair id car cdr) m → D.Code cdr m
  val_of_code : ∀ {m v}, D.Code v m → D.Val v m
  val_nil : ∀ {m}, D.Val .nil m
  lookup : ∀ {m f name}, D.Good m → D.Scope f m → D.Code (.symbol name) m →
    D.Keeps m (Action.inspecting (·.lookup f name)) D.Val
  newFrame : ∀ {m f}, D.Good m → D.Captured f m → D.Keeps m (Action.newFrame f) D.Own
  /-- Binding names in a frame of one's own. -/
  bind : ∀ {m f name v}, D.Good m → D.Own f m → D.Code (.symbol name) m → D.Val v m →
    D.Keeps m (Action.define f name v) fun _ _ => True
  /-- Binding a name in the frame in which a definition is evaluated. -/
  define : ∀ {m f id operands name v}, D.Good m → D.Scope f m →
    D.Code (.pair id (.symbol Form.define.name) operands) m → D.Code (.symbol name) m →
    D.Val v m → D.Keeps m (Action.define f name v) fun _ _ => True
  assign : ∀ {m f id operands name v}, D.Good m → D.Scope f m →
    D.Code (.pair id (.symbol Form.assign.name) operands) m → D.Code (.symbol name) m →
    D.Val v m → D.Keeps m (Action.assign f name v) fun _ _ => True
  newClosure : ∀ {m f formals body name}, D.Good m → D.Scope f m →
    D.AllCode formals m → (∀ x ∈ formals, x.isSymbol = true) → formals.Nodup →
    D.AllCode body m → (∀ s, name = some s → D.Code (.symbol s) m) →
    D.Keeps m (Action.newClosure formals body f name) D.Val
  named : ∀ {m v name}, D.Good m → D.Val v m → D.Code (.symbol name) m →
    D.Keeps m (Action.named v name) D.Val
  /-- The parts of a closure that is called. -/
  record : ∀ {m id c}, D.Good m → D.Val (.closure id) m → m.store.closures[id]? = some c →
    D.Captured c.frame m ∧ (∀ name, .symbol name ∈ c.formals → D.Code (.symbol name) m) ∧
      D.AllCode c.body m

/-- What is to be shown of a discipline, so that evaluation keeps it. While the names of a `letrec`
are declared and initialised the discipline may be suspended. -/
structure Lawful (D : Discipline) (style : Style) : Prop extends D.Regular style where
  letRecFrame : ∀ {m limit f bindings}, D.Good m → D.Scope f m → D.BindingsCode bindings m →
    D.EvaluatorKeeps (evaluate style limit) →
    D.Keeps m (Form.letRecFrame (evaluate style limit) f bindings) D.Scope

variable {D : Discipline} {style : Style} {m m' : Machine} {f : FrameId} {limit : Nat}

theorem keeps_declareFrame (bindings : List (String × Value)) {P : Store → Prop}
    {post : FrameId × List CellId → Machine → Prop} (hnew : P (m.store.newFrame (some f)).2)
    (hP : ∀ s, ∀ b ∈ bindings, P s → P (s.declare m.store.frames.size b.1).2)
    (hpost : ∀ s, P s → D.Step m { m with store := s } ∧ D.Good { m with store := s } ∧
      post (m.store.frames.size, List.range' m.store.cells.size bindings.length)
        { m with store := s }) :
    D.Keeps m (Form.declareFrame f bindings) post := by
  obtain ⟨s, hs, -, heq⟩ := Form.declareFrame_eq bindings hnew hP
  unfold Keeps
  rw [heq]
  exact hpost s hs

theorem AllCode.mono (h : D.Regular style) {items : List Value}
    (hs : D.Step m m') (hc : D.AllCode items m) : D.AllCode items m' :=
  fun x hx => h.code_mono hs (hc x hx)

theorem BindingsCode.mono (h : D.Regular style) {bindings : List (String × Value)}
    (hs : D.Step m m') (hc : D.BindingsCode bindings m) : D.BindingsCode bindings m' :=
  fun b hb => ⟨h.code_mono hs (hc b hb).1, h.code_mono hs (hc b hb).2⟩

namespace Regular

variable (h : D.Regular style)
include h

theorem keeps_shown {v : Value} (hm : D.Good m) :
    D.Keeps m (Action.shown limit v) fun _ _ => True :=
  (h.keeps_bounded hm (Bounded.inspect _ limit v)).imp fun _ _ _ _ => trivial

/-! ## Parts of forms -/

theorem code_items {v : Value} {items : List Value} (hv : D.Code v m)
    (hi : v.toList? = some items) : D.AllCode items m :=
  Value.forall_mem_of_toList? h.code_car h.code_cdr hv hi

theorem keeps_properList {construct : String} {v : Value} (hm : D.Good m) (hv : D.Code v m) :
    D.Keeps m (Action.properList construct v) D.AllCode := by
  unfold Action.properList
  cases hi : v.toList? with
  | none => exact h.keeps_misuse hm
  | some items => exact h.keeps_pure hm (h.code_items hv hi)

theorem keeps_parameters {form : Form} {params : Value} (hm : D.Good m) (hp : D.Code params m) :
    D.Keeps m (Form.parameters limit form params) fun formals m' =>
      D.AllCode formals m' ∧ (∀ x ∈ formals, x.isSymbol = true) ∧ formals.Nodup := by
  refine h.keeps_bind (h.keeps_properList hm hp) fun formals m' _ hm' hf => ?_
  cases hfind : formals.find? (!·.isSymbol) with
  | some formal =>
    exact h.keeps_bind (h.keeps_shown hm') fun _ _ _ hm'' _ => h.keeps_misuse hm''
  | none =>
    have hs : ∀ x ∈ formals, x.isSymbol = true := by
      simpa using List.find?_eq_none.1 hfind
    by_cases hn : formals.Nodup
    · simpa only [if_pos hn] using h.keeps_pure hm' ⟨hf, hs, hn⟩
    · simpa only [if_neg hn] using h.keeps_misuse hm'

theorem keeps_binding {form : Form} {v : Value} (hm : D.Good m) (hv : D.Code v m) :
    D.Keeps m (Form.binding form v) fun b m' => D.Code (.symbol b.1) m' ∧ D.Code b.2 m' := by
  refine h.keeps_bind (h.keeps_properList hm hv) fun items m' _ hm' hi => ?_
  split
  · next name expr => exact h.keeps_pure hm' ⟨hi _ (by simp), hi _ (by simp)⟩
  · exact h.keeps_misuse hm'

theorem keeps_bindingsAndBody {form : Form} {operands : List Value} (hm : D.Good m)
    (ho : D.AllCode operands m) :
    D.Keeps m (Form.bindingsAndBody form operands) fun p m' =>
      D.BindingsCode p.1 m' ∧ D.AllCode p.2 m' := by
  cases operands with
  | nil => exact h.keeps_misuse hm
  | cons bindings body =>
    obtain ⟨hb, hbody⟩ := List.forall_mem_cons.1 ho
    refine h.keeps_bind (h.keeps_properList hm hb) fun items m' hs hm' hi => ?_
    refine h.keeps_bind (h.keeps_mapM hm'
      (fun m'' hs' hm'' x hx => h.keeps_binding hm'' (h.code_mono hs' (hi x hx)))
      fun hs' hv => ⟨h.code_mono hs' hv.1, h.code_mono hs' hv.2⟩)
      fun bs m'' hs' hm'' hbs => ?_
    exact h.keeps_pure hm'' ⟨hbs, AllCode.mono h (h.trans hs hs') hbody⟩

/-! ## Evaluating in order -/

section Forms

variable {ev : Evaluator} (hev : D.EvaluatorKeeps ev)
include hev

theorem keeps_sequence {body : List Value} (hm : D.Good m) (hf : D.Scope f m)
    (hb : D.AllCode body m) : D.Keeps m (Form.sequence ev f body) D.Val :=
  h.keeps_foldlM hm h.val_nil fun _ hs hm' _ _ x hx =>
    hev hm' (h.scope_mono hs hf) (h.code_mono hs (hb x hx))

omit hev in
theorem keeps_evalQuote {operands : List Value} (hm : D.Good m) (ho : D.AllCode operands m) :
    D.Keeps m (Form.evalQuote operands) D.Val := by
  unfold Form.evalQuote
  split
  · next datum => exact h.keeps_pure hm (h.val_of_code (ho datum (by simp)))
  · exact h.keeps_misuse hm

theorem keeps_evalIf {operands : List Value} (hm : D.Good m) (hf : D.Scope f m)
    (ho : D.AllCode operands m) : D.Keeps m (Form.evalIf ev f operands) D.Val := by
  unfold Form.evalIf
  split
  · next test yes =>
    refine h.keeps_bind (hev hm hf (ho test (by simp))) fun v m' hs hm' _ => ?_
    split
    · exact hev hm' (h.scope_mono hs hf) (h.code_mono hs (ho yes (by simp)))
    · exact h.keeps_pure hm' h.val_nil
  · next test yes no =>
    refine h.keeps_bind (hev hm hf (ho test (by simp))) fun v m' hs hm' _ => ?_
    split
    · exact hev hm' (h.scope_mono hs hf) (h.code_mono hs (ho yes (by simp)))
    · exact hev hm' (h.scope_mono hs hf) (h.code_mono hs (ho no (by simp)))
  · exact h.keeps_misuse hm

theorem keeps_evalCond {clauses : List Value} (hm : D.Good m) (hf : D.Scope f m)
    (hc : D.AllCode clauses m) : D.Keeps m (Form.evalCond ev f clauses) D.Val := by
  induction clauses generalizing m with
  | nil => exact h.keeps_pure hm h.val_nil
  | cons clause clauses ih =>
    obtain ⟨hclause, hclauses⟩ := List.forall_mem_cons.1 hc
    cases clause with
    | pair id test body =>
      refine h.keeps_bind (h.keeps_properList hm (h.code_cdr hclause)) fun items m₁ hs₁ hm₁ hi => ?_
      have hf₁ := h.scope_mono hs₁ hf
      have hselect : ∀ v m₂, D.Step m₁ m₂ → D.Good m₂ → D.Val v m₂ →
          D.Keeps m₂ (if v.isTrue then if items.isEmpty then pure v else Form.sequence ev f items
            else Form.evalCond ev f clauses) D.Val := by
        intro v m₂ hs₂ hm₂ hv
        have hf₂ := h.scope_mono hs₂ hf₁
        split
        · split
          · exact h.keeps_pure hm₂ hv
          · exact h.keeps_sequence hev hm₂ hf₂ (AllCode.mono h hs₂ hi)
        · exact ih hm₂ hf₂ (AllCode.mono h (h.trans hs₁ hs₂) hclauses)
      by_cases helse : test = .symbol "else"
      · simpa only [if_pos helse] using
          h.keeps_bind (h.keeps_pure hm₁ h.primitives.val_bool) hselect
      · simpa only [if_neg helse] using
          h.keeps_bind (hev hm₁ hf₁ (h.code_mono hs₁ (h.code_car hclause))) hselect
    | _ => exact h.keeps_misuse hm

theorem keeps_evalAnd {operands : List Value} {last : Value} (hm : D.Good m) (hf : D.Scope f m)
    (ho : D.AllCode operands m) (hl : D.Val last m) :
    D.Keeps m (Form.evalAnd ev f last operands) D.Val := by
  induction operands generalizing m last with
  | nil => exact h.keeps_pure hm hl
  | cons expr exprs ih =>
    obtain ⟨hexpr, hexprs⟩ := List.forall_mem_cons.1 ho
    refine h.keeps_bind (hev hm hf hexpr) fun v m' hs hm' hv => ?_
    split
    · exact ih hm' (h.scope_mono hs hf) (AllCode.mono h hs hexprs) hv
    · exact h.keeps_pure hm' hv

theorem keeps_evalOr {operands : List Value} (hm : D.Good m) (hf : D.Scope f m)
    (ho : D.AllCode operands m) : D.Keeps m (Form.evalOr ev f operands) D.Val := by
  induction operands generalizing m with
  | nil => exact h.keeps_pure hm h.primitives.val_bool
  | cons expr exprs ih =>
    obtain ⟨hexpr, hexprs⟩ := List.forall_mem_cons.1 ho
    refine h.keeps_bind (hev hm hf hexpr) fun v m' hs hm' hv => ?_
    split
    · exact h.keeps_pure hm' hv
    · exact ih hm' (h.scope_mono hs hf) (AllCode.mono h hs hexprs)

/-! ## Functions and definitions -/

omit hev in
theorem keeps_evalLambda {operands : List Value} (hm : D.Good m) (hf : D.Scope f m)
    (ho : D.AllCode operands m) : D.Keeps m (Form.evalLambda limit f operands) D.Val := by
  cases operands with
  | nil => exact h.keeps_misuse hm
  | cons params body =>
    obtain ⟨hp, hb⟩ := List.forall_mem_cons.1 ho
    refine h.keeps_bind (h.keeps_parameters hm hp) fun formals m' hs hm' ⟨hc, hsym, hn⟩ => ?_
    exact h.newClosure hm' (h.scope_mono hs hf) hc hsym hn (AllCode.mono h hs hb) nofun

theorem keeps_evalDefine {id : Identity} {tail : Value} {operands : List Value} (hm : D.Good m)
    (hf : D.Scope f m) (hd : D.Code (.pair id (.symbol Form.define.name) tail) m)
    (ho : D.AllCode operands m) : D.Keeps m (Form.evalDefine limit ev f operands) D.Val := by
  unfold Form.evalDefine
  split
  · next id' name params body =>
    obtain ⟨htarget, hbody⟩ := List.forall_mem_cons.1 ho
    have hname := h.code_car htarget
    refine h.keeps_bind (h.keeps_parameters hm (h.code_cdr htarget))
      fun formals m₁ hs₁ hm₁ ⟨hc, hsym, hn⟩ => ?_
    refine h.keeps_bind (h.newClosure hm₁ (h.scope_mono hs₁ hf) hc hsym hn
      (AllCode.mono h hs₁ hbody) fun s hs => ?_) fun v m₂ hs₂ hm₂ hv => ?_
    · obtain rfl : name = s := Option.some.inj hs
      exact h.code_mono hs₁ hname
    · have hs := h.trans hs₁ hs₂
      refine h.keeps_bind (h.define hm₂ (h.scope_mono hs hf) (h.code_mono hs hd)
        (h.code_mono hs hname) hv) fun _ m₃ hs₃ hm₃ _ => ?_
      exact h.keeps_pure hm₃ (h.val_of_code (h.code_mono (h.trans hs hs₃) hname))
  · exact h.keeps_misuse hm
  · next name expr =>
    have hname := ho (.symbol name) (by simp)
    refine h.keeps_bind (hev hm hf (ho expr (by simp))) fun v m₁ hs₁ hm₁ hv => ?_
    refine h.keeps_bind (h.named hm₁ hv (h.code_mono hs₁ hname)) fun v' m₂ hs₂ hm₂ hv' => ?_
    have hs := h.trans hs₁ hs₂
    refine h.keeps_bind (h.define hm₂ (h.scope_mono hs hf) (h.code_mono hs hd)
      (h.code_mono hs hname) hv') fun _ m₃ hs₃ hm₃ _ => ?_
    exact h.keeps_pure hm₃ (h.val_of_code (h.code_mono (h.trans hs hs₃) hname))
  · exact h.keeps_bind (h.keeps_shown hm) fun _ _ _ hm' _ => h.keeps_misuse hm'
  · exact h.keeps_misuse hm

theorem keeps_evalAssign {id : Identity} {tail : Value} {operands : List Value} (hm : D.Good m)
    (hf : D.Scope f m) (hd : D.Code (.pair id (.symbol Form.assign.name) tail) m)
    (ho : D.AllCode operands m) : D.Keeps m (Form.evalAssign limit ev f operands) D.Val := by
  unfold Form.evalAssign
  split
  · next name expr =>
    have hname := ho (.symbol name) (by simp)
    refine h.keeps_bind (hev hm hf (ho expr (by simp))) fun v m₁ hs₁ hm₁ hv => ?_
    refine h.keeps_bind (h.assign hm₁ (h.scope_mono hs₁ hf) (h.code_mono hs₁ hd)
      (h.code_mono hs₁ hname) hv) fun _ m₂ hs₂ hm₂ _ => ?_
    exact h.keeps_pure hm₂ (h.val_mono hs₂ hv)
  · exact h.keeps_bind (h.keeps_shown hm) fun _ _ _ hm' _ => h.keeps_misuse hm'
  · exact h.keeps_misuse hm

/-! ## Binding forms -/

theorem keeps_initialiser {b : String × Value} (hm : D.Good m) (hf : D.Scope f m)
    (hb : D.Code (.symbol b.1) m ∧ D.Code b.2 m) :
    D.Keeps m (do Action.named (← ev f b.2) b.1) D.Val :=
  h.keeps_bind (hev hm hf hb.2) fun _ _ hs hm' hv => h.named hm' hv (h.code_mono hs hb.1)

theorem keeps_letFrame {bindings : List (String × Value)} (hm : D.Good m) (hf : D.Scope f m)
    (hb : D.BindingsCode bindings m) : D.Keeps m (Form.letFrame ev f bindings) D.Scope := by
  have hvalues : D.Keeps m (bindings.mapM fun b => do Action.named (← ev f b.2) b.1)
      fun vs m' => ∀ v ∈ vs, D.Val v m' :=
    h.keeps_mapM hm (fun m' hs hm' b hb' =>
      h.keeps_initialiser hev hm' (h.scope_mono hs hf) (BindingsCode.mono h hs hb b hb')) h.val_mono
  refine h.keeps_bind hvalues fun values m₁ hs₁ hm₁ hv => ?_
  refine h.keeps_bind (h.newFrame hm₁ (h.captured_of_scope (h.scope_mono hs₁ hf)))
    fun inner m₂ hs₂ hm₂ ho => ?_
  refine h.keeps_bind (h.keeps_forM hm₂ (fun m' hs hm' p hp => ?_) fun _ _ => trivial)
    fun _ m₃ hs₃ hm₃ _ => ?_
  · obtain ⟨hb', hv'⟩ := List.of_mem_zip hp
    exact h.bind hm' (h.own_mono hs ho)
      (h.code_mono (h.trans (h.trans hs₁ hs₂) hs) (hb _ hb').1)
      (h.val_mono (h.trans hs₂ hs) (hv _ hv'))
  · exact h.keeps_pure hm₃ (h.scope_of_own (h.own_mono hs₃ ho))

theorem keeps_letStarFrame {bindings : List (String × Value)} (hm : D.Good m) (hf : D.Scope f m)
    (hb : D.BindingsCode bindings m) : D.Keeps m (Form.letStarFrame ev f bindings) D.Scope := by
  refine h.keeps_bind (h.keeps_foldlM hm hf fun m' hs hm' g hg b hb' => ?_)
    fun inner m' _ hm' hi =>
      (h.newFrame hm' (h.captured_of_scope hi)).imp fun _ _ _ ho => h.scope_of_own ho
  have hcode := BindingsCode.mono h hs hb b hb'
  refine h.keeps_bind (hev hm' hg hcode.2) fun v m₁ hs₁ hm₁ hv => ?_
  refine h.keeps_bind (h.named hm₁ hv (h.code_mono hs₁ hcode.1)) fun v' m₂ hs₂ hm₂ hv' => ?_
  have hs₁₂ := h.trans hs₁ hs₂
  refine h.keeps_bind (h.newFrame hm₂ (h.captured_of_scope (h.scope_mono hs₁₂ hg)))
    fun own m₃ hs₃ hm₃ ho => ?_
  refine h.keeps_bind (h.bind hm₃ ho (h.code_mono (h.trans hs₁₂ hs₃) hcode.1)
    (h.val_mono hs₃ hv')) fun _ m₄ hs₄ hm₄ _ => ?_
  exact h.keeps_pure hm₄ (h.scope_of_own (h.own_mono hs₄ ho))

theorem keeps_initialise {cells : List CellId} {bindings : List (String × Value)}
    {achieved : CellId → Machine → Prop} (hm : D.Good m) (hf : D.Scope f m)
    (hb : D.BindingsCode bindings m)
    (hset : ∀ {m' c v}, D.Step m m' → D.Good m' → c ∈ cells → D.Val v m' →
      D.Keeps m' (Action.updating fun s => ((), s.setCell c v)) fun _ => achieved c)
    (hlast : ∀ {c m m'}, D.Step m m' → achieved c m → achieved c m') :
    D.Keeps m (Form.initialise ev f cells bindings) fun _ m' =>
      ∀ p ∈ cells.zip bindings, achieved p.1 m' := by
  refine h.keeps_forM hm (fun m' hs hm' p hp => ?_) hlast
  obtain ⟨hc, hb'⟩ := List.of_mem_zip hp
  have hcode := BindingsCode.mono h hs hb p.2 hb'
  refine h.keeps_bind (hev hm' (h.scope_mono hs hf) hcode.2) fun v m₁ hs₁ hm₁ hv => ?_
  refine h.keeps_bind (h.named hm₁ hv (h.code_mono hs₁ hcode.1)) fun v' m₂ hs₂ hm₂ hv' => ?_
  exact hset (h.trans (h.trans hs hs₁) hs₂) hm₂ hc hv'

/-- A `letrec` keeps a discipline that is not suspended: it may write the cells that it declares. -/
theorem keeps_letRecFrame {bindings : List (String × Value)} {Declared : CellId → Prop}
    (hb : D.BindingsCode bindings m)
    (hdeclare : D.Keeps m (Form.declareFrame f bindings) fun p m' =>
      D.Own p.1 m' ∧ ∀ c ∈ p.2, Declared c)
    (hset : ∀ {m' c v}, D.Good m' → Declared c → D.Val v m' →
      D.Keeps m' (Action.updating fun s => ((), s.setCell c v)) fun _ _ => True) :
    D.Keeps m (Form.letRecFrame ev f bindings) D.Scope := by
  refine h.keeps_bind hdeclare fun p m₁ hs₁ hm₁ ⟨ho, hcells⟩ => ?_
  have hinit : D.Keeps m₁ (Form.initialise ev p.1 p.2 bindings) _ :=
    h.keeps_initialise hev hm₁ (h.scope_of_own ho) (BindingsCode.mono h hs₁ hb)
      (fun _ hm' hc hv => hset hm' (hcells _ hc) hv) fun _ _ => trivial
  refine h.keeps_bind hinit fun _ m₂ hs₂ hm₂ _ => ?_
  exact h.keeps_pure hm₂ (h.scope_of_own (h.own_mono hs₂ ho))

theorem keeps_bindingForm {form : Form} {operands : List Value}
    {frameOf : List (String × Value) → Action FrameId} (hm : D.Good m) (ho : D.AllCode operands m)
    (hframe : ∀ {m' bindings body}, D.Step m m' → D.Good m' →
      Form.bindingsAndBody form operands m = .ok (bindings, body) m' → D.BindingsCode bindings m' →
      D.Keeps m' (frameOf bindings) D.Scope) :
    D.Keeps m (do
      let (bindings, body) ← Form.bindingsAndBody form operands
      Form.sequence ev (← frameOf bindings) body) D.Val := by
  refine h.keeps_bind (h.keeps_bindingsAndBody hm ho).computed
    fun ⟨bindings, body⟩ m₁ hs₁ hm₁ ⟨heq, hb, hbody⟩ => ?_
  refine h.keeps_bind (hframe hs₁ hm₁ heq hb) fun inner m₂ hs₂ hm₂ hi => ?_
  exact h.keeps_sequence hev hm₂ hi (AllCode.mono h hs₂ hbody)

/-! ## Calls -/

omit hev in
theorem keeps_bindFormal {formal arg : Value} (hm : D.Good m) (hf : D.Own f m)
    (hc : ∀ name, formal = .symbol name → D.Code (.symbol name) m) (hv : D.Val arg m) :
    D.Keeps m (discard (Scope.define limit f formal arg)) fun _ _ => True := by
  cases formal with
  | symbol name => exact h.bind hm hf (hc name rfl) hv
  | _ =>
    have hrefused : ∀ v, D.Keeps m (do Action.misuse (.notBindable (← Action.shown limit v)))
        fun (_ : String) _ => False :=
      fun v => h.keeps_bind (h.keeps_shown hm) fun _ _ _ hm' _ => h.keeps_misuse hm'
    exact h.keeps_discard (h.keeps_bind (hrefused _) fun _ _ _ _ hfalse => hfalse.elim)

theorem keeps_closureCall {fn : Closure} {args : List Value} (hm : D.Good m)
    (hf : D.Captured fn.frame m)
    (hformals : ∀ name, .symbol name ∈ fn.formals → D.Code (.symbol name) m)
    (hbody : D.AllCode fn.body m) (hargs : ∀ v ∈ args, D.Val v m) :
    D.Keeps m (fn.call limit ev args) D.Val := by
  unfold Closure.call
  split
  · refine h.keeps_bind (h.newFrame hm hf) fun inner m₁ hs₁ hm₁ ho => ?_
    refine h.keeps_bind (h.keeps_forM hm₁ (fun m' hs hm' p hp => ?_) fun _ _ => trivial)
      fun _ m₂ hs₂ hm₂ _ => ?_
    · obtain ⟨hformal, harg⟩ := List.of_mem_zip hp
      have hs' := h.trans hs₁ hs
      refine h.keeps_bindFormal hm' (h.own_mono hs ho) (fun name hname => ?_)
        (h.val_mono hs' (hargs _ harg))
      exact h.code_mono hs' (hformals name (hname ▸ hformal))
    · exact h.keeps_sequence hev hm₂ (h.scope_of_own (h.own_mono hs₂ ho))
        (AllCode.mono h (h.trans hs₁ hs₂) hbody)
  · exact h.keeps_misuse hm

theorem keeps_call {fn : Value} {args : List Value} (hm : D.Good m) (hfn : D.Val fn m)
    (hargs : ∀ v ∈ args, D.Val v m) : D.Keeps m (fn.call style limit ev args) D.Val := by
  cases fn with
  | primitive id p => exact h.primitives.keeps_call h.toCoherent p hm hargs
  | closure id =>
    cases hr : m.store.closures[id]? with
    | none =>
      unfold Keeps
      rw [Value.call_of_eq_none hr]
      exact h.misuse hm
    | some c =>
      obtain ⟨hf, hformals, hbody⟩ := h.record hm hfn hr
      exact (h.keeps_closureCall hev hm hf hformals hbody hargs).congr (Value.call_of_eq_some hr)
  | _ =>
    exact h.keeps_bind (h.keeps_bounded hm (Bounded.render _ limit _))
      fun _ _ _ hm' _ => h.keeps_misuse hm'

theorem keeps_application {head tail : Value} (hm : D.Good m) (hf : D.Scope f m)
    (hhead : D.Code head m) (htail : D.Code tail m) :
    D.Keeps m (do
      let operands ← Action.properList "application" tail
      let fn ← ev f head
      let args ← operands.mapM (ev f)
      fn.call style limit ev args) D.Val := by
  refine h.keeps_bind (h.keeps_properList hm htail) fun operands m₁ hs₁ hm₁ ho => ?_
  refine h.keeps_bind (hev hm₁ (h.scope_mono hs₁ hf) (h.code_mono hs₁ hhead))
    fun fn m₂ hs₂ hm₂ hfn => ?_
  have hf₂ := h.scope_mono (h.trans hs₁ hs₂) hf
  refine h.keeps_bind (h.keeps_mapM hm₂ (fun m' hs hm' x hx =>
    hev hm' (h.scope_mono hs hf₂) (h.code_mono (h.trans hs₂ hs) (ho x hx))) h.val_mono)
    fun args m₃ hs₃ hm₃ hargs => ?_
  exact h.keeps_call hev hm₃ (h.val_mono hs₃ hfn) hargs

/-! ## Expressions -/

/-- A form keeps the discipline if it does where it is a `letrec`. -/
theorem keeps_form {form : Form} {id : Identity} {tail : Value} {operands : List Value}
    (hm : D.Good m) (hf : D.Scope f m) (hc : D.Code (.pair id (.symbol form.name) tail) m)
    (ho : D.AllCode operands m)
    (hrec : form = .letRec → D.Keeps m (Form.evalLetRec ev f operands) D.Val) :
    D.Keeps m (form.eval limit ev f operands) D.Val := by
  cases form with
  | quote => exact h.keeps_evalQuote hm ho
  | ifElse => exact h.keeps_evalIf hev hm hf ho
  | cond => exact h.keeps_evalCond hev hm hf ho
  | and => exact h.keeps_evalAnd hev hm hf ho h.primitives.val_bool
  | or => exact h.keeps_evalOr hev hm hf ho
  | lambda => exact h.keeps_evalLambda hm hf ho
  | define => exact h.keeps_evalDefine hev hm hf hc ho
  | assign => exact h.keeps_evalAssign hev hm hf hc ho
  | begin => exact h.keeps_sequence hev hm hf ho
  | letIn =>
    exact h.keeps_bindingForm hev hm ho fun hs hm' _ hb =>
      h.keeps_letFrame hev hm' (h.scope_mono hs hf) hb
  | letStar =>
    exact h.keeps_bindingForm hev hm ho fun hs hm' _ hb =>
      h.keeps_letStarFrame hev hm' (h.scope_mono hs hf) hb
  | letRec => exact hrec rfl

/-- Evaluating an expression keeps the discipline if it does where the expression is a `letrec`. -/
theorem keeps_step {expr : Value} (hm : D.Good m) (hf : D.Scope f m) (hc : D.Code expr m)
    (hrec : ∀ {id tail operands}, expr = .pair id (.symbol Form.letRec.name) tail →
      tail.toList? = some operands → D.Keeps m (Form.evalLetRec ev f operands) D.Val) :
    D.Keeps m (step style limit ev f expr) D.Val := by
  cases expr with
  | symbol name => exact h.lookup hm hf hc
  | pair id head tail =>
    cases hform : Form.ofHead? head with
    | some form =>
      obtain ⟨name, rfl⟩ : ∃ name, head = .symbol name := by
        cases head with
        | symbol name => exact ⟨name, rfl⟩
        | _ => exact nomatch hform
      obtain rfl : form.name = name := Form.ofName?_eq_some_iff.1 hform
      simp only [step, hform]
      cases ho : tail.toList? with
      | none =>
        simp only [Action.properList, ho]
        exact h.keeps_misuse hm
      | some operands =>
        simp only [Action.properList, ho, pure_bind]
        refine h.keeps_form hev hm hf hc (h.code_items (h.code_cdr hc) ho) fun hletrec => ?_
        subst hletrec
        exact hrec rfl ho
    | none =>
      simp only [step, hform]
      exact h.keeps_application hev hm hf (h.code_car hc) (h.code_cdr hc)
  | _ => exact h.keeps_pure hm (h.val_of_code hc)

end Forms

end Regular

/-- Evaluation keeps every lawful discipline, whatever the limit. -/
theorem Lawful.evaluate (h : D.Lawful style) (limit : Nat) :
    D.EvaluatorKeeps (Keel.evaluate style limit) := by
  induction limit with
  | zero => exact fun hm _ _ => h.exceeded hm (.inl rfl)
  | succ limit ih =>
    intro m f expr hm hf hc
    refine h.keeps_step ih hm hf hc fun hexpr ho => ?_
    subst hexpr
    have hoperands := h.code_items (h.code_cdr hc) ho
    exact h.keeps_bindingForm ih hm hoperands fun hs hm' _ hb =>
      h.letRecFrame hm' (h.scope_mono hs hf) hb ih

end Discipline

end Keel
