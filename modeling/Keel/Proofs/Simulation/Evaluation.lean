import Mathlib.Data.List.Nodup
import Keel.Proofs.Simulation.Basic

/-! # Evaluation side by side

Where the operations on stores preserve a relation, evaluation of the same code
goes on side by side from all machines so related. Forms are treated one by one,
for any evaluators of the expressions inside them that go on side by side.
-/

namespace Keel

namespace Simulation

/-- What is to be shown of a simulation, so that evaluation goes on side by side. -/
structure Lawful (S : Simulation) : Prop where
  injective : Function.Injective S.number
  code_car : ∀ {id car cdr}, S.Code (.pair id car cdr) → S.Code car
  code_cdr : ∀ {id car cdr}, S.Code (.pair id car cdr) → S.Code cdr
  frames : ∀ {s t}, S.Related s t → t.frames = s.frames
  nextId : ∀ {s t}, S.Related s t → t.nextId = s.nextId
  closure : ∀ {s t : Store} (id : ClosureId), S.Related s t →
    t.closures[S.number id]? = s.closures[id]?.map (·.rename S.number)
  record : ∀ {s t : Store} {id : ClosureId} {c : Closure}, S.Related s t →
    s.closures[id]? = some c → S.AllCode c.formals ∧ S.AllCode c.body
  lookup : ∀ {s t name} f, S.Related s t → S.Code (.symbol name) →
    t.lookup f name = (s.lookup f name).map (·.rename S.number)
  /-- The cell of a name that occurs in code may be written. -/
  found : ∀ {s t f name c}, S.Related s t → S.Code (.symbol name) → s.findCell? f name = some c →
    S.Free c
  renumber : ∀ {s t} id, S.Related s t → S.Related { s with nextId := id } { t with nextId := id }
  setCell : ∀ {s t c} v, S.Related s t → S.Free c →
    S.Related (s.setCell c v) (t.setCell c (v.rename S.number))
  bindNew : ∀ {s t name} f v, S.Related s t → S.Code (.symbol name) →
    (S.Free s.cells.size ∧ t.cells.size = s.cells.size) ∧
      S.Related (s.bindNew f name v) (t.bindNew f name (v.rename S.number))
  newFrame : ∀ {s t} outer, S.Related s t → S.Related (s.newFrame outer).2 (t.newFrame outer).2
  newClosure : ∀ {s t} {c : Closure}, S.Related s t → S.AllCode c.formals → S.AllCode c.body →
    (t.newClosure (c.rename S.number)).1 = (s.newClosure c).1.rename S.number ∧
      S.Related (s.newClosure c).2 (t.newClosure (c.rename S.number)).2
  nameClosure : ∀ {s t} v name, S.Related s t →
    S.Related (s.nameClosure v name) (t.nameClosure (v.rename S.number) name)

namespace Lawful

variable {S : Simulation} {style : Style} {limit : Nat} (h : S.Lawful)
include h

theorem closureName {s t : Store} (hst : S.Related s t) (id : ClosureId) :
    t.closureName (S.number id) = s.closureName id := by
  rw [Store.closureName, Store.closureName, h.closure id hst]
  cases s.closures[id]? <;> rfl

theorem code_items {v : Value} {items : List Value} (hv : S.Code v)
    (hi : v.toList? = some items) : S.AllCode items :=
  Value.forall_mem_of_toList? h.code_car h.code_cdr hv hi

/-- A name that is bound already keeps its cell, which may be written. -/
theorem define {s t : Store} {name : String} (hst : S.Related s t) (hname : S.Code (.symbol name))
    (f : FrameId) (v : Value) :
    S.Related (s.define f name v).2 (t.define f name (v.rename S.number)).2 := by
  have hown : t.ownCell? f name = s.ownCell? f name := by simp only [Store.ownCell?, h.frames hst]
  cases hc : s.ownCell? f name with
  | some c =>
    rw [Store.define_of_eq_some hc, Store.define_of_eq_some (hown.trans hc)]
    exact h.setCell v hst (h.found hst hname (Store.findCell?_of_ownCell? hc))
  | none =>
    rw [Store.define_of_eq_none hc, Store.define_of_eq_none (hown.trans hc)]
    exact (h.bindNew f v hst hname).2

/-! ## Actions -/

theorem shown (v : Value) :
    S.Relates Eq (Action.shown limit v) (Action.shown limit (v.rename S.number)) :=
  relates_telling fun hst => v.inspect_rename (h.closureName hst) limit

theorem properList (construct : String) {v : Value} (hv : S.Code v) :
    S.Relates (fun xs ys => S.AllCode xs ∧ ys = xs.map (Value.rename S.number))
      (Action.properList construct v) (Action.properList construct (v.rename S.number)) := by
  unfold Action.properList
  rw [Value.toList?_rename]
  cases hi : v.toList? with
  | none => exact relates_misuse _
  | some items => exact relates_pure ⟨h.code_items hv hi, rfl⟩

theorem makeFrame (f : FrameId) : S.Relates Eq (Action.newFrame f) (Action.newFrame f) := by
  refine relates_updating fun {s t} hst => ⟨?_, h.newFrame (some f) hst⟩
  show s.frames.size = t.frames.size
  rw [h.frames hst]

theorem define_frame (f : FrameId) {name : String} (hname : S.Code (.symbol name)) (v : Value) :
    S.Relates Eq (Action.define f name v) (Action.define f name (v.rename S.number)) := by
  refine relates_discard (P := fun _ _ => True) ?_
  exact relates_updating fun hst => ⟨trivial, h.define hst hname f v⟩

theorem write_cell {c : CellId} (hc : S.Free c) (v : Value) :
    S.Relates Eq (Action.updating fun s => ((), s.setCell c v))
      (Action.updating fun s => ((), s.setCell c (v.rename S.number))) :=
  relates_updating fun hst => ⟨rfl, h.setCell v hst hc⟩

theorem assign (f : FrameId) {name : String} (hname : S.Code (.symbol name)) (v : Value) :
    S.Relates Eq (Action.assign f name v) (Action.assign f name (v.rename S.number)) := by
  intro m n hmn
  have hfind : n.store.findCell? f name = m.store.findCell? f name :=
    Store.findCell?_congr (h.frames hmn.store) f name
  cases hc : m.store.findCell? f name with
  | none =>
    rw [Action.assign_of_eq_none hc, Action.assign_of_eq_none (hfind.trans hc)]
    exact .error hmn
  | some c =>
    rw [Action.assign_of_eq_some hc, Action.assign_of_eq_some (hfind.trans hc)]
    exact h.write_cell (h.found hmn.store hname hc) v hmn

theorem named (v : Value) (name : String) :
    S.Relates S.Renamed (Action.named v name) (Action.named (v.rename S.number) name) :=
  relates_bind (P := Eq) (relates_updating fun hst => ⟨rfl, h.nameClosure v name hst⟩)
    fun _ _ _ => relates_pure rfl

theorem makeClosure {formals body : List Value} (hformals : S.AllCode formals)
    (hbody : S.AllCode body) (f : FrameId) (name : Option String) :
    S.Relates S.Renamed (Action.newClosure formals body f name)
      (Action.newClosure (formals.map (Value.rename S.number)) (body.map (Value.rename S.number))
        f name) :=
  relates_updating fun hst => h.newClosure (c := ⟨formals, body, f, name⟩) hst hformals hbody

theorem newList (items : List Value) :
    S.Relates S.Renamed (Action.updating (·.newList items .nil))
      (Action.updating (·.newList (items.map (Value.rename S.number)) .nil)) := by
  refine relates_updating fun {s t} hst => ?_
  simp only [Store.newList, List.length_map, h.nextId hst]
  refine ⟨?_, h.renumber _ hst⟩
  show _ = (Value.listTo s.nextId items .nil).rename S.number
  rw [Value.rename_listTo]
  rfl

theorem newPair (car cdr : Value) :
    S.Relates S.Renamed (Action.updating (·.newPair car cdr))
      (Action.updating (·.newPair (car.rename S.number) (cdr.rename S.number))) := by
  refine relates_updating fun {s t} hst => ?_
  simp only [Store.newPair, h.nextId hst]
  exact ⟨rfl, h.renumber _ hst⟩

/-! ## Primitives -/

section Calls

variable {args : List Value}

omit h in
theorem getchar :
    S.Relates S.Renamed (Primitive.call style limit .getchar args)
      (Primitive.call style limit .getchar (args.map (Value.rename S.number))) := by
  rcases args with _ | ⟨a, args⟩
  · refine relates_bind relates_nextChar ?_
    rintro c _ rfl
    cases c <;> exact relates_pure rfl
  · exact relates_misuse _

theorem print :
    S.Relates S.Renamed (Primitive.call style limit .print args)
      (Primitive.call style limit .print (args.map (Value.rename S.number))) := by
  rcases args with _ | ⟨v, _ | ⟨w, args⟩⟩
  · exact relates_misuse _
  · refine relates_bind (relates_telling fun hst =>
      style.renamed (h.closureName hst) limit v) ?_
    rintro text _ rfl
    exact relates_bind (relates_write text) fun _ _ _ => relates_pure rfl
  · exact relates_misuse _

omit h in
theorem itoc :
    S.Relates S.Renamed (Primitive.call style limit .itoc args)
      (Primitive.call style limit .itoc (args.map (Value.rename S.number))) := by
  rcases args with _ | ⟨v, _ | ⟨w, args⟩⟩
  · exact relates_misuse _
  · cases v with
    | int code =>
      simp only [Primitive.call, List.map_cons, List.map_nil, Value.rename]
      cases Primitive.characterOf? code with
      | some c => exact relates_pure rfl
      | none =>
        have htold : S.Relates Eq (Action.ofExcept (Value.numeral code))
            (Action.ofExcept (Value.numeral code)) :=
          relates_telling fun _ => rfl
        refine relates_bind htold ?_
        rintro text _ rfl
        exact relates_misuse _
    | _ => exact relates_misuse _
  · cases v <;> exact relates_misuse _

omit h in
theorem cat :
    S.Relates S.Renamed (Primitive.call style limit .cat args)
      (Primitive.call style limit .cat (args.map (Value.rename S.number))) := by
  rcases args with _ | ⟨a, _ | ⟨b, _ | ⟨c, args⟩⟩⟩
  · exact relates_misuse _
  · cases a <;> exact relates_misuse _
  · cases a with
    | symbol x =>
      cases b with
      | symbol y => exact relates_pure rfl
      | _ => exact relates_misuse _
    | _ => exact relates_misuse _
  · cases a with
    | symbol x => cases b <;> exact relates_misuse _
    | _ => exact relates_misuse _

omit h in
theorem arithmetic_ints (op : Arithmetic) (a b : Int) :
    S.Relates S.Renamed (Primitive.call style limit (.arithmetic op) [.int a, .int b])
      (Primitive.call style limit (.arithmetic op) [.int a, .int b]) := by
  cases op with
  | div =>
    by_cases hb : b = 0
    · simp only [Primitive.call, Arithmetic.apply, if_pos hb]
      exact relates_misuse _
    · simp only [Primitive.call, Arithmetic.apply, if_neg hb]
      exact relates_pure rfl
  | _ => exact relates_pure rfl

omit h in
theorem arithmetic (op : Arithmetic) :
    S.Relates S.Renamed (Primitive.call style limit (.arithmetic op) args)
      (Primitive.call style limit (.arithmetic op) (args.map (Value.rename S.number))) := by
  rcases args with _ | ⟨a, _ | ⟨b, _ | ⟨c, args⟩⟩⟩
  · exact relates_misuse _
  · cases a <;> exact relates_misuse _
  · cases a with
    | int i =>
      cases b with
      | int j => exact arithmetic_ints op i j
      | _ => exact relates_misuse _
    | _ => exact relates_misuse _
  · cases a with
    | int i => cases b <;> exact relates_misuse _
    | _ => exact relates_misuse _

end Calls

/-- A call that is refused for its arguments is refused under the other numbers too. -/
theorem primitive (p : Primitive) (args : List Value) :
    S.Relates S.Renamed (p.call style limit args)
      (p.call style limit (args.map (Value.rename S.number))) := by
  cases p with
  | getchar => exact getchar
  | print => exact h.print
  | itoc => exact itoc
  | cat => exact cat
  | arithmetic op => exact arithmetic op
  | list => exact h.newList args
  | pair =>
    rcases args with _ | ⟨a, _ | ⟨b, _ | ⟨c, args⟩⟩⟩
    · exact relates_misuse _
    · exact relates_misuse _
    · exact h.newPair a b
    · exact relates_misuse _
  | car | cdr =>
    rcases args with _ | ⟨v, _ | ⟨w, args⟩⟩
    · exact relates_misuse _
    · cases v with
      | pair id first rest => exact relates_pure rfl
      | _ => exact relates_misuse _
    · cases v <;> exact relates_misuse _
  | eq =>
    rcases args with _ | ⟨a, _ | ⟨b, _ | ⟨c, args⟩⟩⟩
    · exact relates_misuse _
    · exact relates_misuse _
    · exact relates_pure (congrArg Value.bool (Value.identical_rename h.injective a b))
    · exact relates_misuse _
  | test kind =>
    rcases args with _ | ⟨v, _ | ⟨w, args⟩⟩
    · exact relates_misuse _
    · exact relates_pure (congrArg Value.bool (kind.holds_rename v))
    · exact relates_misuse _

/-! ## The operands of forms -/

theorem parameters (form : Form) {params : Value} (hp : S.Code params) :
    S.Relates (fun xs ys => S.AllCode xs ∧ ys = xs.map (Value.rename S.number))
      (Form.parameters limit form params) (Form.parameters limit form (params.rename S.number)) := by
  refine relates_bind (h.properList form.name hp) ?_
  rintro formals _ ⟨hf, rfl⟩
  have hsymbol : (fun v : Value => !v.isSymbol) ∘ Value.rename S.number = fun v => !v.isSymbol :=
    funext fun v => congrArg (!·) v.isSymbol_rename
  have hnodup : (formals.map (Value.rename S.number)).Nodup ↔ formals.Nodup :=
    List.nodup_map_iff (Value.rename_injective h.injective)
  rw [List.find?_map, hsymbol]
  cases formals.find? (!·.isSymbol) with
  | some formal =>
    refine relates_bind (h.shown formal) ?_
    rintro text _ rfl
    exact relates_misuse _
  | none =>
    by_cases hn : formals.Nodup
    · simpa only [if_pos hn, if_pos (hnodup.2 hn), Option.map_none] using relates_pure ⟨hf, rfl⟩
    · simpa only [if_neg hn, if_neg (mt hnodup.1 hn), Option.map_none] using relates_misuse _

theorem binding (form : Form) {v : Value} (hv : S.Code v) :
    S.Relates (fun b c => (S.Code (.symbol b.1) ∧ S.Code b.2) ∧ c = S.renameBinding b)
      (Form.binding form v) (Form.binding form (v.rename S.number)) := by
  refine relates_bind (h.properList form.name hv) ?_
  rintro parts _ ⟨hparts, rfl⟩
  rcases parts with _ | ⟨name, _ | ⟨expr, _ | ⟨x, parts⟩⟩⟩
  · exact relates_misuse _
  · cases name <;> exact relates_misuse _
  · cases name with
    | symbol name => exact relates_pure ⟨⟨hparts _ (by simp), hparts _ (by simp)⟩, rfl⟩
    | _ => exact relates_misuse _
  · cases name <;> exact relates_misuse _

theorem bindingsAndBody (form : Form) {operands : List Value} (ho : S.AllCode operands) :
    S.Relates (fun p q => (S.BindingsCode p.1 ∧ S.AllCode p.2) ∧
        q = (p.1.map S.renameBinding, p.2.map (Value.rename S.number)))
      (Form.bindingsAndBody form operands)
      (Form.bindingsAndBody form (operands.map (Value.rename S.number))) := by
  cases operands with
  | nil => exact relates_misuse _
  | cons bindings body =>
    obtain ⟨hb, hbody⟩ := List.forall_mem_cons.1 ho
    refine relates_bind (h.properList form.name hb) ?_
    rintro items _ ⟨hitems, rfl⟩
    refine relates_bind (relates_mapM items fun v hv => h.binding form (hitems v hv)) ?_
    rintro bs _ ⟨-, hbs, rfl⟩
    exact relates_pure ⟨⟨hbs, hbody⟩, rfl⟩

/-! ## Forms -/

section Forms

variable {ev ev' : Evaluator} (hev : S.EvaluatorRelates ev ev') (f : FrameId)
include hev

omit h in
theorem sequence {body : List Value} (hb : S.AllCode body) :
    S.Relates S.Renamed (Form.sequence ev f body)
      (Form.sequence ev' f (body.map (Value.rename S.number))) :=
  relates_foldlM body rfl fun x hx _ _ _ => hev f (hb x hx)

omit h hev in
theorem evalQuote (operands : List Value) :
    S.Relates S.Renamed (Form.evalQuote operands)
      (Form.evalQuote (operands.map (Value.rename S.number))) := by
  rcases operands with _ | ⟨datum, _ | ⟨x, operands⟩⟩
  · exact relates_misuse _
  · exact relates_pure rfl
  · exact relates_misuse _

omit h in
theorem evalIf {operands : List Value} (ho : S.AllCode operands) :
    S.Relates S.Renamed (Form.evalIf ev f operands)
      (Form.evalIf ev' f (operands.map (Value.rename S.number))) := by
  rcases operands with _ | ⟨test, _ | ⟨yes, _ | ⟨no, _ | ⟨x, operands⟩⟩⟩⟩
  · exact relates_misuse _
  · exact relates_misuse _
  · refine relates_bind (hev f (ho test (by simp))) ?_
    rintro v _ rfl
    rw [Value.isTrue_rename]
    split
    · exact hev f (ho yes (by simp))
    · exact relates_pure rfl
  · refine relates_bind (hev f (ho test (by simp))) ?_
    rintro v _ rfl
    rw [Value.isTrue_rename]
    split
    · exact hev f (ho yes (by simp))
    · exact hev f (ho no (by simp))
  · exact relates_misuse _

theorem evalCond {clauses : List Value} (hc : S.AllCode clauses) :
    S.Relates S.Renamed (Form.evalCond ev f clauses)
      (Form.evalCond ev' f (clauses.map (Value.rename S.number))) := by
  induction clauses with
  | nil => exact relates_pure rfl
  | cons clause clauses ih =>
    obtain ⟨hclause, hclauses⟩ := List.forall_mem_cons.1 hc
    cases clause with
    | pair id test body =>
      refine relates_bind (h.properList _ (h.code_cdr hclause)) ?_
      rintro items _ ⟨hitems, rfl⟩
      have hselect : ∀ v w : Value, S.Renamed v w → S.Relates S.Renamed
          (if v.isTrue then if items.isEmpty then pure v else Form.sequence ev f items
            else Form.evalCond ev f clauses)
          (if w.isTrue then if (items.map (Value.rename S.number)).isEmpty then pure w
              else Form.sequence ev' f (items.map (Value.rename S.number))
            else Form.evalCond ev' f (clauses.map (Value.rename S.number))) := by
        rintro v _ rfl
        rw [Value.isTrue_rename, List.isEmpty_map]
        split
        · split
          · exact relates_pure rfl
          · exact sequence hev f hitems
        · exact ih hclauses
      have htrue : S.Renamed (.bool true) (.bool true) := rfl
      by_cases helse : test = .symbol "else"
      · simpa only [if_pos helse, if_pos (Value.rename_eq_symbol_iff.2 helse)] using
          relates_bind (relates_pure htrue) hselect
      · simpa only [if_neg helse, if_neg (mt Value.rename_eq_symbol_iff.1 helse)] using
          relates_bind (hev f (h.code_car hclause)) hselect
    | _ => exact relates_misuse _

omit h in
theorem evalAnd {operands : List Value} (ho : S.AllCode operands) (last : Value) :
    S.Relates S.Renamed (Form.evalAnd ev f last operands)
      (Form.evalAnd ev' f (last.rename S.number) (operands.map (Value.rename S.number))) := by
  induction operands generalizing last with
  | nil => exact relates_pure rfl
  | cons expr exprs ih =>
    obtain ⟨hexpr, hexprs⟩ := List.forall_mem_cons.1 ho
    refine relates_bind (hev f hexpr) ?_
    rintro v _ rfl
    rw [Value.isTrue_rename]
    split
    · exact ih hexprs v
    · exact relates_pure rfl

omit h in
theorem evalOr {operands : List Value} (ho : S.AllCode operands) :
    S.Relates S.Renamed (Form.evalOr ev f operands)
      (Form.evalOr ev' f (operands.map (Value.rename S.number))) := by
  induction operands with
  | nil => exact relates_pure rfl
  | cons expr exprs ih =>
    obtain ⟨hexpr, hexprs⟩ := List.forall_mem_cons.1 ho
    refine relates_bind (hev f hexpr) ?_
    rintro v _ rfl
    rw [Value.isTrue_rename]
    split
    · exact relates_pure rfl
    · exact ih hexprs

omit hev in
theorem evalLambda {operands : List Value} (ho : S.AllCode operands) :
    S.Relates S.Renamed (Form.evalLambda limit f operands)
      (Form.evalLambda limit f (operands.map (Value.rename S.number))) := by
  cases operands with
  | nil => exact relates_misuse _
  | cons params body =>
    obtain ⟨hp, hbody⟩ := List.forall_mem_cons.1 ho
    refine relates_bind (h.parameters _ hp) ?_
    rintro formals _ ⟨hformals, rfl⟩
    exact h.makeClosure hformals hbody f none

theorem evalDefine {operands : List Value} (ho : S.AllCode operands) :
    S.Relates S.Renamed (Form.evalDefine limit ev f operands)
      (Form.evalDefine limit ev' f (operands.map (Value.rename S.number))) := by
  rcases operands with _ | ⟨target, operands⟩
  · exact relates_misuse _
  obtain ⟨htarget, hbody⟩ := List.forall_mem_cons.1 ho
  cases target with
  | pair id head params =>
    cases head with
    | symbol name =>
      refine relates_bind (h.parameters .define (h.code_cdr htarget)) ?_
      rintro formals _ ⟨hformals, rfl⟩
      refine relates_bind (h.makeClosure hformals hbody f (some name)) ?_
      rintro v _ rfl
      exact relates_bind (h.define_frame f (h.code_car htarget) v) fun _ _ _ => relates_pure rfl
    | _ => exact relates_misuse _
  | symbol name =>
    rcases operands with _ | ⟨expr, _ | ⟨x, operands⟩⟩
    · exact relates_misuse _
    · refine relates_bind (hev f (hbody expr (by simp))) ?_
      rintro v _ rfl
      refine relates_bind (h.named v name) ?_
      rintro w _ rfl
      exact relates_bind (h.define_frame f htarget w) fun _ _ _ => relates_pure rfl
    · exact relates_misuse _
  | _ =>
    rcases operands with _ | ⟨expr, _ | ⟨x, operands⟩⟩
    · exact relates_misuse _
    · refine relates_bind (h.shown _) ?_
      rintro text _ rfl
      exact relates_misuse _
    · exact relates_misuse _

theorem evalAssign {operands : List Value} (ho : S.AllCode operands) :
    S.Relates S.Renamed (Form.evalAssign limit ev f operands)
      (Form.evalAssign limit ev' f (operands.map (Value.rename S.number))) := by
  rcases operands with _ | ⟨target, _ | ⟨expr, _ | ⟨x, operands⟩⟩⟩
  · exact relates_misuse _
  · cases target <;> exact relates_misuse _
  · cases target with
    | symbol name =>
      refine relates_bind (hev f (ho expr (by simp))) ?_
      rintro v _ rfl
      exact relates_bind (h.assign f (ho _ (by simp)) v) fun _ _ _ => relates_pure rfl
    | _ =>
      refine relates_bind (h.shown _) ?_
      rintro text _ rfl
      exact relates_misuse _
  · cases target <;> exact relates_misuse _

/-! ## Binding forms -/

theorem initialiser {b : String × Value} (hb : S.Code b.2) :
    S.Relates S.Renamed (do Action.named (← ev f b.2) b.1)
      (do Action.named (← ev' f (b.2.rename S.number)) b.1) := by
  refine relates_bind (hev f hb) ?_
  rintro v _ rfl
  exact h.named v b.1

omit hev in
theorem bindFrame {bindings : List (String × Value)} (hb : S.BindingsCode bindings)
    (values : List Value) :
    S.Relates Eq
      (do
        let inner ← Action.newFrame f
        (bindings.zip values).forM fun ((name, _), v) => Action.define inner name v
        return inner)
      (do
        let inner ← Action.newFrame f
        ((bindings.map S.renameBinding).zip (values.map (Value.rename S.number))).forM
          fun ((name, _), v) => Action.define inner name v
        return inner) := by
  refine relates_bind (h.makeFrame f) ?_
  rintro inner _ rfl
  rw [List.zip_map]
  refine relates_bind (relates_forM _ fun p hp => ?_) fun _ _ _ => relates_pure rfl
  exact h.define_frame inner (hb p.1 (List.of_mem_zip hp).1).1 p.2

theorem letFrame {bindings : List (String × Value)} (hb : S.BindingsCode bindings) :
    S.Relates Eq (Form.letFrame ev f bindings)
      (Form.letFrame ev' f (bindings.map S.renameBinding)) := by
  refine relates_bind (relates_values bindings fun b hmem => ?_) ?_
  · exact h.initialiser hev f (hb b hmem).2
  · rintro values _ ⟨-, rfl⟩
    exact h.bindFrame f hb values

theorem letStarFrame {bindings : List (String × Value)} (hb : S.BindingsCode bindings) :
    S.Relates Eq (Form.letStarFrame ev f bindings)
      (Form.letStarFrame ev' f (bindings.map S.renameBinding)) := by
  refine relates_bind (relates_foldlM (P := Eq) bindings rfl fun b hmem g _ hg => ?_) ?_
  · subst hg
    obtain ⟨hname, hexpr⟩ := hb b hmem
    refine relates_bind (hev g hexpr) ?_
    rintro v _ rfl
    refine relates_bind (h.named v b.1) ?_
    rintro w _ rfl
    refine relates_bind (h.makeFrame g) ?_
    rintro inner _ rfl
    exact relates_bind (h.define_frame inner hname w) fun _ _ _ => relates_pure rfl
  · rintro inner _ rfl
    exact h.makeFrame inner

omit hev in
theorem declareFrame {bindings : List (String × Value)} (hb : S.BindingsCode bindings) :
    S.Relates (fun p q => (∀ c ∈ p.2, S.Free c) ∧ q = p) (Form.declareFrame f bindings)
      (Form.declareFrame f (bindings.map S.renameBinding)) := by
  refine relates_bind (h.makeFrame f) ?_
  rintro inner _ rfl
  refine relates_bind (relates_mapM (P := S.Free) (g := id) bindings fun b hmem => ?_) ?_
  · exact relates_updating fun hst => h.bindNew inner .absent hst (hb b hmem).1
  · rintro cells _ ⟨-, hcells, rfl⟩
    exact relates_pure ⟨hcells, by rw [List.map_id]⟩

theorem initialise {cells : List CellId} {bindings : List (String × Value)}
    (hc : ∀ c ∈ cells, S.Free c) (hb : S.BindingsCode bindings) :
    S.Relates Eq (Form.initialise ev f cells bindings)
      (Form.initialise ev' f cells (bindings.map S.renameBinding)) := by
  unfold Form.initialise
  rw [List.zip_map_right]
  refine relates_forM _ fun p hp => ?_
  obtain ⟨hcell, hbinding⟩ := List.of_mem_zip hp
  refine relates_bind (hev f (hb p.2 hbinding).2) ?_
  rintro v _ rfl
  refine relates_bind (h.named v p.2.1) ?_
  rintro w _ rfl
  exact h.write_cell (hc p.1 hcell) w

theorem letRecFrame {bindings : List (String × Value)} (hb : S.BindingsCode bindings) :
    S.Relates Eq (Form.letRecFrame ev f bindings)
      (Form.letRecFrame ev' f (bindings.map S.renameBinding)) := by
  refine relates_bind (h.declareFrame f hb) ?_
  rintro _ p ⟨hcells, rfl⟩
  exact relates_bind (h.initialise hev p.1 hcells hb) fun _ _ _ => relates_pure rfl

theorem bindingForm (form : Form) {operands : List Value} (ho : S.AllCode operands)
    {frameOf frameOf' : List (String × Value) → Action FrameId}
    (hframe : ∀ {bindings}, S.BindingsCode bindings →
      S.Relates Eq (frameOf bindings) (frameOf' (bindings.map S.renameBinding))) :
    S.Relates S.Renamed
      (do
        let (bindings, body) ← Form.bindingsAndBody form operands
        Form.sequence ev (← frameOf bindings) body)
      (do
        let (bindings, body) ← Form.bindingsAndBody form (operands.map (Value.rename S.number))
        Form.sequence ev' (← frameOf' bindings) body) := by
  refine relates_bind (h.bindingsAndBody form ho) ?_
  rintro ⟨bindings, body⟩ _ ⟨⟨hb, hbody⟩, rfl⟩
  refine relates_bind (hframe hb) ?_
  rintro inner _ rfl
  exact sequence hev inner hbody

theorem form (form : Form) {operands : List Value} (ho : S.AllCode operands) :
    S.Relates S.Renamed (form.eval limit ev f operands)
      (form.eval limit ev' f (operands.map (Value.rename S.number))) := by
  cases form with
  | quote => exact evalQuote operands
  | ifElse => exact evalIf hev f ho
  | cond => exact h.evalCond hev f ho
  | and => exact evalAnd hev f ho (.bool true)
  | or => exact evalOr hev f ho
  | lambda => exact h.evalLambda f ho
  | define => exact h.evalDefine hev f ho
  | assign => exact h.evalAssign hev f ho
  | begin => exact sequence hev f ho
  | letIn => exact h.bindingForm hev .letIn ho (h.letFrame hev f)
  | letStar => exact h.bindingForm hev .letStar ho (h.letStarFrame hev f)
  | letRec => exact h.bindingForm hev .letRec ho (h.letRecFrame hev f)

/-! ## Calls and expressions -/

omit hev in
theorem bindFormal {formal : Value} (hf : S.Code formal) (arg : Value) :
    S.Relates Eq (discard (Scope.define limit f formal arg))
      (discard (Scope.define limit f (formal.rename S.number) (arg.rename S.number))) := by
  cases formal with
  | symbol name => exact h.define_frame f hf arg
  | _ =>
    have hrefused : ∀ v : Value, S.Relates (fun (_ _ : String) => False)
        (do Action.misuse (.notBindable (← Action.shown limit v)))
        (do Action.misuse (.notBindable (← Action.shown limit (v.rename S.number)))) := by
      intro v
      refine relates_bind (h.shown v) ?_
      rintro text _ rfl
      exact relates_misuse _
    exact relates_discard (P := Eq) (relates_bind (hrefused _) fun _ _ hfalse => hfalse.elim)

omit f

theorem closureCall {fn : Closure} (hformals : S.AllCode fn.formals) (hbody : S.AllCode fn.body)
    (args : List Value) :
    S.Relates S.Renamed (fn.call limit ev args)
      ((fn.rename S.number).call limit ev' (args.map (Value.rename S.number))) := by
  by_cases hlength : args.length = fn.formals.length
  · simp only [Closure.call, Closure.rename, List.length_map, if_pos hlength]
    refine relates_bind (h.makeFrame fn.frame) ?_
    rintro inner _ rfl
    rw [List.zip_map]
    refine relates_bind (relates_forM _ fun p hp => ?_) fun _ _ _ => sequence hev inner hbody
    exact h.bindFormal inner (hformals p.1 (List.of_mem_zip hp).1) p.2
  · simp only [Closure.call, Closure.rename, List.length_map, if_neg hlength]
    exact relates_misuse _

theorem call (fn : Value) (args : List Value) :
    S.Relates S.Renamed (fn.call style limit ev args)
      ((fn.rename S.number).call style limit ev' (args.map (Value.rename S.number))) := by
  cases fn with
  | primitive id p => exact h.primitive p args
  | closure id =>
    intro m n hmn
    have hclosure := h.closure id hmn.store
    cases hrecord : m.store.closures[id]? with
    | none =>
      rw [hrecord] at hclosure
      rw [Value.call_of_eq_none hrecord, Value.rename, Value.call_of_eq_none hclosure]
      exact .error hmn
    | some fn =>
      rw [hrecord] at hclosure
      obtain ⟨hformals, hbody⟩ := h.record hmn.store hrecord
      rw [Value.call_of_eq_some hrecord, Value.rename, Value.call_of_eq_some hclosure]
      exact h.closureCall hev hformals hbody args hmn
  | _ =>
    refine relates_bind (relates_telling fun hst =>
      Value.render_rename (h.closureName hst) limit _) ?_
    rintro text _ rfl
    exact relates_misuse _

theorem step : S.EvaluatorRelates (Keel.step style limit ev) (Keel.step style limit ev') := by
  intro f expr hexpr
  cases expr with
  | symbol name =>
    exact relates_inspecting (fun hst => h.lookup f hst hexpr) fun _ => rfl
  | pair id head tail =>
    have htail := h.code_cdr hexpr
    cases hform : Form.ofHead? head with
    | some form =>
      simp only [Keel.step, Value.rename, Form.ofHead?_rename, hform]
      refine relates_bind (h.properList _ htail) ?_
      rintro operands _ ⟨ho, rfl⟩
      exact h.form hev f form ho
    | none =>
      simp only [Keel.step, Value.rename, Form.ofHead?_rename, hform]
      refine relates_bind (h.properList _ htail) ?_
      rintro operands _ ⟨ho, rfl⟩
      refine relates_bind (hev f (h.code_car hexpr)) ?_
      rintro fn _ rfl
      refine relates_bind (relates_values operands fun x hx => hev f (ho x hx)) ?_
      rintro args _ ⟨-, rfl⟩
      exact h.call hev fn args
  | _ => exact relates_pure rfl

end Forms

theorem evaluate (style : Style) (limit : Nat) :
    S.EvaluatorRelates (Keel.evaluate style limit) (Keel.evaluate style limit) := by
  induction limit with
  | zero => exact fun _ _ _ => relates_throw .tooDeep
  | succ limit ih => exact h.step ih

end Lawful

end Simulation

end Keel
