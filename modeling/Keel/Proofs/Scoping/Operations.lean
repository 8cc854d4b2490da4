import Keel.Proofs.Discipline.Basic
import Keel.Proofs.Scoping.Resolution

/-! # Operations on scopes

Assigning writes the cell that a name is resolved to. Defining writes the cell of a
name that the frame itself binds, and else it binds a new cell, as declaring always
does. In either case the names of all frames keep their places, also while some of the
operations fail.
-/

namespace Keel

/-! ## Operations one after the other -/

/-- What changes bindings, or the values of names. -/
inductive Scope.Operation where
  | declare (f : FrameId) (name : Value)
  | define (f : FrameId) (name v : Value)
  | assign (f : FrameId) (name v : Value)
  | update (f : FrameId) (pairs : List (Value × Value))

namespace Scope

variable {limit : Nat} {m : Machine} {f : FrameId} {name v : Value}

def Operation.perform (limit : Nat) : Operation → Action Unit
  | .declare f name => discard (Scope.declare limit f name)
  | .define f name v => discard (Scope.define limit f name v)
  | .assign f name v => Scope.assign limit f name v
  | .update f pairs => Scope.update limit f pairs

/-- Performs the operations in order; one that fails does not keep the others from it. -/
def performAll (limit : Nat) (operations : List Operation) (m : Machine) : Machine :=
  operations.foldl (fun m operation => (operation.perform limit).after m) m

def orderly : Discipline where
  Good _ := True
  Step m m' := m.store.KeepsNames m'.store
  Fails m _ m' := m.store.KeepsNames m'.store
  Scope _ _ := True
  Own _ _ := True
  Code _ _ := True
  Val _ _ := True

theorem coherent_orderly : orderly.Coherent where
  refl := .of_frames rfl
  trans h h' := h.trans h'
  fails_trans h h' := h.trans h'
  misuse _ := .of_frames rfl
  exceeded _ _ := .of_frames rfl

theorem keeps_shown : orderly.Keeps m (Action.shown limit v) fun _ _ => True :=
  (coherent_orderly.keeps_inspecting trivial fun _ _ => .of_frames rfl).imp fun _ _ _ _ => trivial

theorem keeps_bindable : orderly.Keeps m (bindable limit name) fun _ _ => True := by
  unfold bindable
  split
  · exact coherent_orderly.keeps_pure trivial trivial
  · exact coherent_orderly.keeps_bind keeps_shown fun _ _ _ _ _ =>
      coherent_orderly.keeps_misuse trivial

theorem keeps_declare : orderly.Keeps m (declare limit f name) fun _ _ => True :=
  coherent_orderly.keeps_bind keeps_bindable fun name m' _ _ _ =>
    Discipline.keeps_updating (m'.store.declare_eq f name) (.bindNew _ f name _) trivial trivial

theorem keeps_define : orderly.Keeps m (define limit f name v) fun _ _ => True :=
  coherent_orderly.keeps_bind keeps_bindable fun name _ _ _ _ =>
    Discipline.keeps_updating rfl (.define _ f name v) trivial trivial

theorem keeps_assign : orderly.Keeps m (assign limit f name v) fun _ _ => True := by
  unfold assign
  split
  · refine Discipline.keeps_assign (fun c _ => ?_) (.of_frames rfl)
    exact Discipline.keeps_updating rfl (.of_frames rfl) trivial trivial
  · have htext : orderly.Keeps m (nameText limit name) fun _ _ => True := by
      unfold nameText
      split
      · exact coherent_orderly.keeps_pure trivial trivial
      · exact coherent_orderly.keeps_pure trivial trivial
      · exact keeps_shown
    exact coherent_orderly.keeps_bind htext fun _ _ _ _ _ => .of_frames rfl

theorem keeps_perform (operation : Operation) :
    orderly.Keeps m (operation.perform limit) fun _ _ => True := by
  cases operation with
  | declare f name => exact coherent_orderly.keeps_discard keeps_declare
  | define f name v => exact coherent_orderly.keeps_discard keeps_define
  | assign f name v => exact keeps_assign
  | update f pairs =>
    have hall : orderly.Keeps m (update limit f pairs) fun _ _ =>
        ∀ p ∈ Store.distinctKeys pairs, (fun _ _ => True : Value × Value → Machine → Prop) p m :=
      coherent_orderly.keeps_forM trivial
        (fun _ _ _ _ _ => coherent_orderly.keeps_discard keeps_define) fun _ _ => trivial
    exact hall.imp fun _ _ _ _ => trivial

theorem keepsNames_performAll (limit : Nat) (operations : List Operation) (m : Machine) :
    m.store.KeepsNames (performAll limit operations m).store := by
  induction operations generalizing m with
  | nil => exact .of_frames rfl
  | cons operation operations ih =>
    have hstep : m.store.KeepsNames ((operation.perform limit).after m).store :=
      (keeps_perform operation).after (fun _ h _ => h) fun _ _ h => h
    exact hstep.trans (ih _)

/-! ## Effects on all scopes -/

section Effects

variable {e : FrameId} {n : String} {c : CellId}
  (hbound : ∀ g c, m.store.Binds g c → c < m.store.cells.size)
include hbound

theorem assign_cases (limit : Nat) (e : FrameId) (n : String) (v : Value) :
    ((∀ g ∈ m.store.chain e, m.store.ownCell? g n = none) ∧
        assign limit e (.symbol n) v m = .error (.unbound (.assigned n)) m) ∨
      ∃ c s', m.store.findCell? e n = some c ∧
        assign limit e (.symbol n) v m = .ok () { m with store := s' } ∧
        Store.WritesInto c v m.store s' := by
  cases hc : m.store.findCell? e n with
  | none => exact .inl ⟨Store.findCell?_eq_none_iff.1 hc, Action.assign_of_eq_none hc⟩
  | some c =>
    obtain ⟨g, hg⟩ := Store.Binds.of_findCell? hc
    refine .inr ⟨c, _, rfl, Action.assign_of_eq_some hc, ?_⟩
    exact Store.writesInto_setCell (hbound g c hg) v

theorem define_cases (he : e < m.store.frames.size) (limit : Nat) (n : String) (v : Value) :
    (∃ c s', m.store.ownCell? e n = some c ∧ m.store.findCell? e n = some c ∧
        define limit e (.symbol n) v m = .ok c { m with store := s' } ∧
        Store.WritesInto c v m.store s') ∨
      m.store.ownCell? e n = none ∧ ∃ c s',
        define limit e (.symbol n) v m = .ok c { m with store := s' } ∧
        Store.BindsAnew e n c v m.store s' := by
  cases hc : m.store.ownCell? e n with
  | some c =>
    refine .inl ⟨c, _, rfl, Store.findCell?_of_ownCell? hc,
      Action.updating_of_eq (Store.define_of_eq_some hc), ?_⟩
    exact Store.writesInto_setCell (hbound e c (.of_ownCell? hc)) v
  | none =>
    refine .inr ⟨rfl, _, _, Action.updating_of_eq (Store.define_of_eq_none hc), ?_⟩
    exact Store.bindsAnew_bindNew he hbound n v

theorem exists_declare (he : e < m.store.frames.size) (limit : Nat) (n : String) :
    ∃ c s', declare limit e (.symbol n) m = .ok c { m with store := s' } ∧
      Store.BindsAnew e n c .absent m.store s' :=
  ⟨_, _, Action.updating_of_eq (m.store.declare_eq e n),
    Store.bindsAnew_bindNew he hbound n .absent⟩

end Effects

theorem exists_bindable_eq_error (hname : name.isSymbol = false) (limit : Nat) (m : Machine) :
    ∃ fault, bindable limit name m = .error fault m ∧
      ∀ text, m.store.inspect limit name = .ok text → fault = .misuse (.notBindable text) := by
  have hbindable : bindable limit name =
      (do Action.misuse (.notBindable (← Action.shown limit name))) := by
    unfold bindable
    split
    · exact nomatch hname
    · rfl
  rw [hbindable]
  cases hshown : m.store.inspect limit name with
  | ok text =>
    refine ⟨_, bind_of_eq_ok (Action.shown_of_inspect hshown), ?_⟩
    rintro text' h
    rw [Except.ok.inj h]
  | error fault =>
    have hfails : Action.shown limit name m = .error fault m := by
      show Action.ofExcept (m.store.inspect limit name) m = .error fault m
      rw [hshown]
      rfl
    exact ⟨fault, bind_of_eq_error hfails, fun _ h => nomatch h⟩

end Scope

/-- The effect on all scopes of operations on a frame whose bindings are to existing cells.
Assigning fails if no frame on the chain binds the name, and writes the cell of the name otherwise;
so does defining a name that the frame itself binds. Defining another name binds it anew, as
declaring a name always does. What is no symbol is refused, and nothing has happened. The names of
all frames remain unique and in order, whatever operations are performed. -/
theorem scope_operations {m : Machine} {e : FrameId} (he : e < m.store.frames.size)
    (hbound : ∀ g c, m.store.Binds g c → c < m.store.cells.size) (limit : Nat) (n : String)
    (v : Value) :
    ((∀ g ∈ m.store.chain e, m.store.ownCell? g n = none) ∧
        Scope.assign limit e (.symbol n) v m = .error (.unbound (.assigned n)) m ∨
      ∃ c s', m.store.findCell? e n = some c ∧
        Scope.assign limit e (.symbol n) v m = .ok () { m with store := s' } ∧
        Store.WritesInto c v m.store s') ∧
    ((∃ c s', m.store.ownCell? e n = some c ∧ m.store.findCell? e n = some c ∧
        Scope.define limit e (.symbol n) v m = .ok c { m with store := s' } ∧
        Store.WritesInto c v m.store s') ∨
      m.store.ownCell? e n = none ∧ ∃ c s',
        Scope.define limit e (.symbol n) v m = .ok c { m with store := s' } ∧
        Store.BindsAnew e n c v m.store s') ∧
    (∃ c s', Scope.declare limit e (.symbol n) m = .ok c { m with store := s' } ∧
      Store.BindsAnew e n c .absent m.store s') ∧
    (∀ name : Value, name.isSymbol = false → ∃ fault,
      Scope.define limit e name v m = .error fault m ∧
        Scope.declare limit e name m = .error fault m ∧
        ∀ text, m.store.inspect limit name = .ok text → fault = .misuse (.notBindable text)) ∧
    ∀ operations, m.store.KeepsNames (Scope.performAll limit operations m).store := by
  refine ⟨Scope.assign_cases hbound limit e n v, Scope.define_cases hbound he limit n v,
    Scope.exists_declare hbound he limit n, ?_,
    fun operations => Scope.keepsNames_performAll limit operations m⟩
  intro name hname
  obtain ⟨fault, hfails, hcause⟩ := Scope.exists_bindable_eq_error hname limit m
  exact ⟨fault, bind_of_eq_error hfails, bind_of_eq_error hfails, hcause⟩

/-- A name is defined in the middle one of three frames and is found there from the innermost one,
but not from the outermost one, which binds it as well. -/
theorem scope_operations_middle :
    let s := (Store.empty.newFrame none).2
    let s := (s.define 0 "x" (.bool true)).2
    let s := ((s.newFrame (some 0)).2.newFrame (some 1)).2
    let m : Machine := ⟨s, .ofString "", ""⟩
    1 < s.frames.size ∧ (∀ g c, s.Binds g c → c < s.cells.size) ∧
      s.findCell? 2 "x" = some 0 ∧
      ∃ c s', Scope.define 9 1 (.symbol "x") .nil m = .ok c { m with store := s' } ∧
        s'.findCell? 2 "x" = some c ∧ s'.findCell? 0 "x" = some 0 := by
  intro s₁ s₂ s m
  have hseparate : s.Separate :=
    (((Store.Separate.empty.newFrame none).define 0 "x" (.bool true)).newFrame (some 0)).newFrame
      (some 1)
  have hbound : ∀ g c, s.Binds g c → c < s.cells.size := fun g c h => hseparate.bound h
  have he : 1 < s.frames.size := by decide
  have hown : s.ownCell? 1 "x" = none := by decide
  have hdefine := (scope_operations (m := m) he hbound 9 "x" .nil).2.1
  obtain ⟨-, c, s', heq, hnew⟩ := hdefine.resolve_left fun ⟨_, _, hc, _⟩ =>
    nomatch hown.symm.trans hc
  have heval : Scope.define 9 1 (.symbol "x") .nil m =
      .ok 1 { m with store := s.bindNew 1 "x" .nil } := rfl
  obtain ⟨rfl, hm⟩ := EStateM.Result.ok.inj (heq.symm.trans heval)
  obtain rfl : s' = s.bindNew 1 "x" .nil := congrArg Machine.store hm
  refine ⟨he, hbound, by decide +kernel, 1, _, heq, ?_, ?_⟩
  · exact (hnew.found 2 "x").2 ⟨rfl, by decide +kernel⟩
  · rw [hnew.kept 0 "x" (by decide +kernel)]
    decide +kernel

end Keel
