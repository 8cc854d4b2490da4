import Mathlib.Logic.Relation
import Keel.Proofs.Identity.Session
import Keel.Proofs.Parameters

/-! # Identity and equality agree

A session comes from moment to moment: it rests between what it is asked for, it
begins evaluations, makes their calls and gets their results. The values that turned
up remain in hand. From each moment to the next a heap is kept that holds them and
whatever is in the store. So one identity denotes one pair then and later on, and new
pairs are not identical to older ones.
-/

namespace Keel

/-- What a session comes to, and the values that are in hand there. -/
inductive Moment where
  /-- The session has nothing to do. -/
  | rest (s : Session) (hand : List Value)
  /-- An evaluation begins. -/
  | evaluating (style : Style) (e : Evaluation) (hand : List Value)
  /-- A call is made, or an evaluation has ended. -/
  | holding (store : Store) (hand : List Value)

namespace Moment

def store : Moment → Store
  | .rest s _ => s.machine.store
  | .evaluating _ e _ => e.machine.store
  | .holding store _ => store

def hand : Moment → List Value
  | .rest _ hand => hand
  | .evaluating _ e hand => e.expr :: hand
  | .holding _ hand => hand

/-- The value is in a cell, in a closure or in hand, or it is a part of one that is. -/
def Has (w : Moment) (x : Value) : Prop :=
  ∃ v, x.Part v ∧ (v ∈ w.store.cells ∨
    (∃ c ∈ w.store.closures, v ∈ c.formals ∨ v ∈ c.body) ∨ v ∈ w.hand)

inductive Leads : Moment → Moment → Prop where
  | does (s : Session) (setup : Setup) (deed : Session.Deed) (hand : List Value) :
      Leads (.rest s hand) (.rest (s.does setup deed) hand)
  /-- The value of a form is given back. -/
  | form {s s' : Session} {setup : Setup} {v : Value} {hand : List Value} :
      Session.evaluateOne setup s = .ok v s' → Leads (.rest s hand) (.rest s' (v :: hand))
  /-- The value of a text is given back. -/
  | text {s s' : Session} {setup : Setup} {code : String} {v : Value} {hand : List Value} :
      Session.evaluateText setup code s = .ok v s' → Leads (.rest s hand) (.rest s' (v :: hand))
  /-- Somebody else has read from the source. -/
  | source (s : Session) (source : Source) (hand : List Value) :
      Leads (.rest s hand) (.rest { s with machine := { s.machine with source } } hand)
  | starts {s : Session} {setup : Setup} {e : Evaluation} {deed : Session.Deed}
      {hand : List Value} :
      s.Starts setup e deed → Leads (.rest s hand) (.evaluating setup.style e hand)
  | involves {style : Style} {e p : Evaluation} {hand : List Value} :
      e.Involves style p →
        Leads (.evaluating style e hand) (.evaluating style p (e.expr :: hand))
  /-- The operator and the operands before this one have been evaluated. -/
  | operand {style : Style} {limit : Nat} {f : FrameId} {id : Identity} {head tail fn x : Value}
      {before after values hand : List Value} {m m₁ m₂ : Machine} :
      Form.ofHead? head = none → tail.toList? = some (before ++ x :: after) →
      evaluate style limit f head m = .ok fn m₁ →
      before.mapM (evaluate style limit f) m₁ = .ok values m₂ →
        Leads (.evaluating style ⟨limit + 1, f, .pair id head tail, m⟩ hand)
          (.evaluating style ⟨limit, f, x, m₂⟩ (fn :: values ++ .pair id head tail :: hand))
  | calls {style : Style} {e : Evaluation} {fn : Value} {args hand : List Value} {m : Machine} :
      e.Calls style fn args m →
        Leads (.evaluating style e hand) (.holding m.store (fn :: args ++ e.expr :: hand))
  | ends {style : Style} {e : Evaluation} {v : Value} {hand : List Value} {m : Machine} :
      e.outcome style = .ok v m →
        Leads (.evaluating style e hand) (.holding m.store (v :: e.expr :: hand))

/-- The heap holds all values that there are at the moment. -/
structure Backed (h : Heap) (w : Moment) : Prop where
  store : w.store.Backed h
  hand : h.HoldsAll w.hand

variable {h : Heap} {w w' : Moment} {x y z : Value}

theorem Backed.holds (hw : w.Backed h) (hx : w.Has x) : h.Holds x := by
  obtain ⟨v, hpart, hv⟩ := hx
  refine Heap.Holds.of_part ?_ hpart
  rcases hv with hcell | ⟨c, hc, hv⟩ | hhand
  · obtain ⟨c, hc⟩ := Array.mem_iff_getElem?.1 hcell
    exact hw.store.cell hc
  · obtain ⟨id, hid⟩ := Array.mem_iff_getElem?.1 hc
    exact hv.elim (hw.store.formals hid v) (hw.store.body hid v)
  · exact hw.hand v hhand

theorem Backed.admits {style : Style} {e : Evaluation} {hand : List Value}
    (hw : (evaluating style e hand).Backed h) : h.Admits e :=
  ⟨hw.store, hw.hand e.expr List.mem_cons_self⟩

/-- From one moment to the next the heap is at most extended. -/
theorem Backed.exists_of_leads (hw : w.Backed h) (hlead : w.Leads w') :
    ∃ h', h.Extends h' ∧ w'.Backed h' := by
  have hhand : ∀ h', h.Extends h' → h'.HoldsAll w.hand := fun _ hh => hw.hand.mono hh
  cases hlead with
  | does s setup deed hand =>
    obtain ⟨h', hh, hs⟩ := Heap.exists_backed_does hw.store setup deed
    exact ⟨h', hh, hs, hhand h' hh⟩
  | form hv =>
    obtain ⟨h', hh, hs, hv⟩ := (Heap.keeps_evaluateOne _ hw.store).of_eq_ok hv
    exact ⟨h', hh, hs, List.forall_mem_cons.2 ⟨hv, hhand h' hh⟩⟩
  | text hv =>
    obtain ⟨h', hh, hs, hv⟩ := (Heap.keeps_evaluateText _ _ hw.store).of_eq_ok hv
    exact ⟨h', hh, hs, List.forall_mem_cons.2 ⟨hv, hhand h' hh⟩⟩
  | source s source hand => exact ⟨h, .refl h, hw.store, hw.hand⟩
  | starts hstarts =>
    obtain ⟨h', hh, he⟩ := Heap.exists_admits_of_starts hw.store hstarts
    exact ⟨h', hh, he.backed, List.forall_mem_cons.2 ⟨he.expr, hhand h' hh⟩⟩
  | involves hp =>
    obtain ⟨h', hh, hp⟩ := hw.admits.of_involves hp
    exact ⟨h', hh, hp.backed, List.forall_mem_cons.2 ⟨hp.expr, hhand h' hh⟩⟩
  | operand _ hparts hoperator hbefore =>
    have hitems := hw.admits.expr.2.2.items hparts
    obtain ⟨ho, hrest⟩ := List.forall_mem_append.1 hitems
    obtain ⟨h', hh, hm, hfn, hvalues⟩ := hw.admits.of_operands ho hoperator hbefore
    have hx := (hrest _ List.mem_cons_self).mono hh
    have hnew := List.forall_mem_cons.2 ⟨hfn, hvalues⟩
    exact ⟨h', hh, hm, List.forall_mem_cons.2 ⟨hx, List.forall_mem_append.2 ⟨hnew, hhand h' hh⟩⟩⟩
  | calls hcall =>
    obtain ⟨h', hh, hm, hfn, hargs⟩ := hw.admits.of_calls hcall
    have hnew := List.forall_mem_cons.2 ⟨hfn, hargs⟩
    exact ⟨h', hh, hm, List.forall_mem_append.2 ⟨hnew, hhand h' hh⟩⟩
  | ends hv =>
    obtain ⟨h', hh, hm, hv⟩ := hw.admits.of_outcome hv
    exact ⟨h', hh, hm, List.forall_mem_cons.2 ⟨hv, hhand h' hh⟩⟩

theorem Backed.exists_of_later (hw : w.Backed h) (hlater : Relation.ReflTransGen Leads w w') :
    ∃ h', h.Extends h' ∧ w'.Backed h' := by
  induction hlater with
  | refl => exact ⟨h, .refl h, hw⟩
  | tail _ hlead ih =>
    obtain ⟨h₁, hh₁, hw₁⟩ := ih
    obtain ⟨h₂, hh₂, hw₂⟩ := hw₁.exists_of_leads hlead
    exact ⟨h₂, hh₁.trans hh₂, hw₂⟩

end Moment

/-! ## New pairs -/

namespace Store

/-- On the store, a primitive or the reader has newly made the value, if it is a pair. -/
inductive Makes : Store → Value → Prop where
  | pair {style : Style} {limit : Nat} {args : List Value} {v : Value} {m m' : Machine} :
      Primitive.pair.call style limit args m = .ok v m' → Makes m.store v
  | list {style : Style} {limit : Nat} {args : List Value} {v x : Value} {m m' : Machine} :
      Primitive.list.call style limit args m = .ok v m' → x.Tail v → Makes m.store x
  | reader {setup : Setup} {d : Datum} {line : Int} {v x : Value} {s s' : Session} :
      Session.accept setup d line s = .ok v s' → x.Part v → Makes s.machine.store x

variable {s : Store} {x : Value}

theorem Makes.numberedFrom (h : s.Makes x) : x.NumberedFrom s.nextId := by
  cases h with
  | @pair style limit args v m m' hcall =>
    rcases args with _ | ⟨a, _ | ⟨b, _ | ⟨c, args⟩⟩⟩
    · cases hcall
    · cases hcall
    · cases hcall
      exact Nat.le_refl _
    · cases hcall
  | @list style limit args v x m m' hcall htail =>
    obtain rfl : Value.listTo m.store.nextId args .nil = v := (EStateM.Result.ok.inj hcall).1
    exact Value.numberedFrom_of_tail_listTo htail
  | @reader setup d line v x s s' haccept hpart =>
    obtain ⟨expr, s₁, hload, hrest⟩ := exists_of_bind_eq_ok haccept
    obtain ⟨-, s₂, -, hv⟩ := exists_of_bind_eq_ok hrest
    obtain rfl : (Value.ofDatum d s.machine.store.nextId).1 = expr :=
      (EStateM.Result.ok.inj hload).1
    obtain rfl := (EStateM.Result.ok.inj hv).1
    exact Value.numberedFrom_of_part_ofDatum hpart

end Store

/-- What a heap holds is older than what is numbered from its first free identity on. -/
theorem Heap.Holds.identical_eq_false {h : Heap} {x z : Value} {n : Nat} (hx : h.Holds x)
    (hz : z.NumberedFrom n) (hpair : z.isPair = true) (hle : h.next ≤ n) :
    z.identical x = false := by
  cases z with
  | pair i car cdr =>
    cases x with
    | pair j car' cdr' =>
      have hlt : j < n := Nat.lt_of_lt_of_le (Heap.lt_of_parts_eq_some hx.1) hle
      have hne : i ≠ j := Nat.ne_of_gt (Nat.lt_of_lt_of_le hlt hz)
      simpa [Value.identical] using hne
    | _ => rfl
  | _ => cases hpair

/-! ## Positions -/

theorem Store.identical_of_lookup {s s' : Store} {f g : FrameId} {name name' : String} {c : CellId}
    {x y : Value} (hc : s.findCell? f name = some c) (hc' : s'.findCell? g name' = some c)
    (hcell : s'.cell c = s.cell c) (hx : s.lookup f name = .ok x) (hy : s'.lookup g name' = .ok y) :
    x.identical y = true := by
  obtain ⟨c₁, hc₁, rfl, -⟩ := Store.lookup_eq_ok hx
  obtain ⟨c₂, hc₂, rfl, -⟩ := Store.lookup_eq_ok hy
  obtain rfl := Option.some.inj (hc.symm.trans hc₁)
  obtain rfl := Option.some.inj (hc'.symm.trans hc₂)
  rw [hcell]
  exact Value.identical_equivalence.refl _

/-- Identity is what `eq` answers, and an equivalence. For values that are not both pairs it is
equality within one kind, so a truth value is not identical to a number. From any moment of a
session to a later one, identical values are the very same, parts included, and so they are equal
as far as the limit lets the comparison go; free identities only move on, and a pair that is newly
made on a store where they have done so is identical to none of the values at the earlier moment.
Whoever looks up a cell that has the same content finds identical values; a parameter gives the very
argument, a quotation its datum, `car` and `cdr` the parts that the pair has. -/
theorem identity_agrees_with_equality :
    (∀ (style : Style) (limit : Nat) (x y : Value) (m : Machine),
      Primitive.eq.call style limit [x, y] m = .ok (.bool (x.identical y)) m) ∧
    (Equivalence fun x y : Value => x.identical y = true) ∧
    (∀ x y : Value, x.isPair = false ∨ y.isPair = false → ∀ limit,
      (x.identical y = true ↔ x.kind = y.kind ∧ x.equal limit y = .ok true)) ∧
    (∀ (b : Bool) (i : Int), (Value.bool b).identical (.int i) = false) ∧
    (∀ (source : Source) (w w' : Moment),
      Relation.ReflTransGen Moment.Leads (.rest (.start source) []) w →
      Relation.ReflTransGen Moment.Leads w w' →
      w.store.nextId ≤ w'.store.nextId ∧
      (∀ x y : Value, w.Has x → w'.Has y → x.identical y = true → x = y ∧ ∀ limit,
        x.equal limit y = if x.nesting ≤ limit then .ok true else .error .tooDeep) ∧
      ∀ (x z : Value) (s : Store), w.Has x → w.store.nextId ≤ s.nextId → s.Makes z →
        z.isPair = true → z.identical x = false) ∧
    (∀ (s s' : Store) (f g : FrameId) (name name' : String) (c : CellId) (x y : Value),
      s.findCell? f name = some c → s'.findCell? g name' = some c → s'.cell c = s.cell c →
      s.lookup f name = .ok x → s'.lookup g name' = .ok y → x.identical y = true) ∧
    (∀ (limit : Nat) (ev : Evaluator) (fn : Closure) (names : List String) (args : List Value)
      (m : Machine), fn.Takes names → args.length = names.length →
      let store := m.store.withArguments fn.frame names args
      fn.call limit ev args m =
        Form.sequence ev m.store.frames.size fn.body { m with store := store } ∧
      ∀ (i : Nat) (name : String) (arg : Value), names[i]? = some name → args[i]? = some arg →
        arg.isPair = true → store.lookup m.store.frames.size name = .ok arg) ∧
    (∀ (style : Style) (limit : Nat) (f : FrameId) (i j : Identity) (d : Value) (m : Machine),
      evaluate style (limit + 1) f (.pair i (.symbol Form.quote.name) (.pair j d .nil)) m =
        .ok d m) ∧
    ∀ (style : Style) (limit : Nat) (i : Identity) (car cdr : Value) (m : Machine),
      Primitive.car.call style limit [.pair i car cdr] m = .ok car m ∧
      Primitive.cdr.call style limit [.pair i car cdr] m = .ok cdr m := by
  refine ⟨fun _ _ _ _ _ => rfl, Value.identical_equivalence,
    fun _ _ h limit => Value.identical_iff_kind_eq_and_equal h limit, fun _ _ => rfl, ?_,
    fun _ _ _ _ _ _ _ _ _ hc hc' => Store.identical_of_lookup hc hc', ?_, fun _ _ _ _ _ _ _ => rfl,
    fun _ _ _ _ _ _ => ⟨rfl, rfl⟩⟩
  · intro source w w' hw hw'
    obtain ⟨h₀, hs₀⟩ := Heap.exists_backed_start source
    have hstart : (Moment.rest (.start source) []).Backed h₀ := ⟨hs₀, nofun⟩
    obtain ⟨h, -, hback⟩ := hstart.exists_of_later hw
    obtain ⟨h', hh, hback'⟩ := hback.exists_of_later hw'
    refine ⟨?_, fun x y hx hy hidentical => ?_, fun x z s hx hle hmakes hpair => ?_⟩
    · rw [hback.store.next, hback'.store.next]
      exact hh.le
    · obtain rfl : x = y :=
        ((hback.holds hx).mono hh).eq_of_identical (hback'.holds hy) hidentical
      exact ⟨rfl, fun limit => Value.equal_self limit x⟩
    · refine (hback.holds hx).identical_eq_false hmakes.numberedFrom hpair ?_
      rwa [← hback.store.next]
  · intro limit ev fn names args m htakes hlength store
    exact ⟨htakes.call_eq hlength, fun i name arg hname harg hpair =>
      Store.lookup_withArguments htakes.nodup hname harg (by rintro rfl; exact nomatch hpair)⟩

/-- A session has bound a name to the quoted list `(1)`. Whoever looks it up finds the same pair, a
function that is called with it as well; a pair of 1 and `nil` that is newly made is another one,
although it is equal. -/
theorem identity_agrees_with_equality_quoted :
    let setup : Setup := ⟨.plain, 1000, false⟩
    let source := Source.ofString "(define x '(1))"
    let last := (Session.start source).does setup .form
    let store := last.machine.store
    let z : Value := .pair store.nextId (.int 1) .nil
    ∃ x, store.lookup last.root "x" = .ok x ∧ x.isPair = true ∧ x.identical x = true ∧
      (store.withArguments last.root ["y"] [x]).lookup store.frames.size "y" = .ok x ∧
      z.identical x = false ∧ z.equal 1 x = .ok true ∧
      (Value.bool true).identical (.int 1) = false := by
  intro setup source last store z
  obtain ⟨-, -, hkinds, -, hmoments, hcells, hcall, -⟩ := identity_agrees_with_equality
  let x : Value := .pair 6 (.int 1) .nil
  have hcell : store.cells[21]? = some x := by decide +kernel
  have hx : store.lookup last.root "x" = .ok x := by decide +kernel
  have hfind : store.findCell? last.root "x" = some 21 := by decide +kernel
  have hhas : (Moment.rest last []).Has x :=
    ⟨x, .self, .inl (Array.mem_iff_getElem?.2 ⟨21, hcell⟩)⟩
  have hlast : Relation.ReflTransGen Moment.Leads (.rest (.start source) []) (.rest last []) :=
    .single (.does _ setup .form [])
  have hpair : Primitive.pair.call .plain 9 [.int 1, .nil] last.machine = .ok z _ := rfl
  have htakes : (Closure.mk [.symbol "y"] [.symbol "y"] last.root none).Takes ["y"] :=
    ⟨rfl, by decide⟩
  obtain ⟨-, -, hnew⟩ := hmoments source _ _ hlast .refl
  obtain ⟨-, hparameter⟩ := hcall 9 (evaluate .plain 9) _ _ [x] last.machine htakes rfl
  refine ⟨x, hx, rfl, ?_, ?_, ?_, ?_, ?_⟩
  · exact hcells store store _ _ "x" "x" 21 x x hfind hfind rfl hx hx
  · exact hparameter 0 "y" x rfl rfl rfl
  · exact hnew x z store hhas (Nat.le_refl _) (.pair hpair) rfl
  · decide +kernel
  · refine Bool.eq_false_iff.2 fun h => ?_
    exact absurd ((hkinds _ _ (.inl rfl) 0).1 h).1 (by decide)

end Keel
