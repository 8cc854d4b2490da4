import Keel.Proofs.Involvement
import Keel.Proofs.Limit
import Keel.Proofs.Lists
import Keel.Proofs.Parameters

/-! # What code yields

Code is made of pairs, and a quotation may give some of them away, but nothing else
depends on which pairs they are. So what a program does can be said of the data that it
was read from. There is one rule for each kind of expression: it tells what the
expression yields if its parts yield what they do.
-/

namespace Keel

namespace Value

variable {x : Value} {name : String} {i : Int}

theorem eq_symbol_of_toDatum? (h : x.toDatum? = some (.symbol name)) : x = .symbol name := by
  cases x with
  | symbol =>
    obtain rfl : _ = name := by simpa [toDatum?] using h
    rfl
  | pair => simp [toDatum?, Option.bind_eq_some_iff] at h
  | _ => simp [toDatum?] at h

theorem eq_int_of_toDatum? (h : x.toDatum? = some (.int i)) : x = .int i := by
  cases x with
  | int =>
    obtain rfl : _ = i := by simpa [toDatum?] using h
    rfl
  | pair => simp [toDatum?, Option.bind_eq_some_iff] at h
  | _ => simp [toDatum?] at h

theorem eq_map_symbol_of_toDatum? {items : List Value} {names : List String}
    (h : items.map toDatum? = (names.map Datum.symbol).map some) : items = names.map symbol := by
  induction names generalizing items with
  | nil => exact List.map_eq_nil_iff.1 h
  | cons name names ih =>
    obtain ⟨x, items, rfl, hx, hitems⟩ := List.map_eq_cons_iff.1 h
    rw [eq_symbol_of_toDatum? hx, ih hitems, List.map_cons]

theorem exists_operands_of_toDatum? {ds : List Datum}
    (h : x.toDatum? = some (.list (.symbol name :: ds))) : ∃ operands,
      x.toList? = some (.symbol name :: operands) ∧ operands.map toDatum? = ds.map some := by
  obtain ⟨items, hitems, hdata⟩ := exists_toList?_of_toDatum? h
  obtain ⟨head, operands, rfl, hhead, hoperands⟩ := List.map_eq_cons_iff.1 hdata
  rw [eq_symbol_of_toDatum? hhead] at hitems
  exact ⟨operands, hitems, hoperands⟩

end Value

/-- Code that stands for the datum has the value, whichever pairs it is made of. -/
def Yields (style : Style) (limit : Nat) (f : FrameId) (d : Datum) (m : Machine) (v : Value)
    (m' : Machine) : Prop :=
  ∀ x : Value, x.toDatum? = some d → evaluate style limit f x m = .ok v m'

/-- Expressions that are evaluated one after the other have the values. -/
inductive YieldsAll (style : Style) (limit : Nat) (f : FrameId) :
    List Datum → Machine → List Value → Machine → Prop where
  | nil (m : Machine) : YieldsAll style limit f [] m [] m
  | cons {d : Datum} {ds : List Datum} {m m₁ m' : Machine} {v : Value} {vs : List Value} :
      Yields style limit f d m v m₁ → YieldsAll style limit f ds m₁ vs m' →
      YieldsAll style limit f (d :: ds) m (v :: vs) m'

section Rules

variable {style : Style} {limit limit' : Nat} {f : FrameId} {d : Datum} {ds : List Datum}
  {m m₁ m' : Machine} {v : Value} {vs items : List Value} {name : String}

theorem Yields.mono (h : Yields style limit f d m v m') (hle : limit ≤ limit') :
    Yields style limit' f d m v m' := by
  intro x hx
  have hv := h x hx
  refine (evaluate_eq_of_le hle fun m'' => ?_).trans hv
  rw [hv]
  exact nofun

namespace YieldsAll

theorem single (h : Yields style limit f d m v m') : YieldsAll style limit f [d] m [v] m' :=
  .cons h (.nil m')

theorem mapM (h : YieldsAll style limit f ds m vs m')
    (hitems : items.map Value.toDatum? = ds.map some) :
    items.mapM (evaluate style limit f) m = .ok vs m' := by
  induction h generalizing items with
  | nil =>
    obtain rfl := List.map_eq_nil_iff.1 hitems
    rfl
  | cons hd _ ih =>
    obtain ⟨x, items, rfl, hx, hitems⟩ := List.map_eq_cons_iff.1 hitems
    rw [List.mapM_cons]
    exact (bind_of_eq_ok (hd x hx)).trans ((bind_of_eq_ok (ih hitems)).trans rfl)

theorem sequence (h : YieldsAll style limit f ds m vs m')
    (hitems : items.map Value.toDatum? = ds.map some) :
    Form.sequence (evaluate style limit) f items m = .ok (vs.getLast?.getD .nil) m' := by
  unfold Form.sequence
  generalize Value.nil = last
  induction h generalizing items last with
  | nil =>
    obtain rfl := List.map_eq_nil_iff.1 hitems
    rfl
  | cons hd _ ih =>
    obtain ⟨x, items, rfl, hx, hitems⟩ := List.map_eq_cons_iff.1 hitems
    rw [List.foldlM_cons, List.getLast?_cons]
    exact (bind_of_eq_ok (hd x hx)).trans (ih hitems _)

end YieldsAll

/-! ## Atoms -/

theorem yields_symbol (h : m.store.lookup f name = .ok v) :
    Yields style (limit + 1) f (.symbol name) m v m := by
  intro x hx
  obtain rfl := Value.eq_symbol_of_toDatum? hx
  show Action.ofExcept (m.store.lookup f name) m = .ok v m
  rw [h]
  rfl

theorem yields_int (i : Int) : Yields style (limit + 1) f (.int i) m (.int i) m := by
  intro x hx
  obtain rfl := Value.eq_int_of_toDatum? hx
  rfl

/-! ## Forms -/

theorem yields_form {form : Form}
    (h : ∀ operands, operands.map Value.toDatum? = ds.map some →
      form.eval limit (evaluate style limit) f operands m = .ok v m') :
    Yields style (limit + 1) f (.list (.symbol form.name :: ds)) m v m' := by
  intro x hx
  obtain ⟨operands, hitems, hoperands⟩ := Value.exists_operands_of_toDatum? hx
  rw [evaluate, step_form hitems]
  exact h operands hoperands

theorem yields_quote (name : String) :
    Yields style (limit + 1) f (.list [.symbol Form.quote.name, .symbol name]) m
      (.symbol name) m := by
  refine yields_form fun operands hoperands => ?_
  obtain ⟨x, rest, rfl, hx, hrest⟩ := List.map_eq_cons_iff.1 hoperands
  obtain rfl := Value.eq_symbol_of_toDatum? hx
  obtain rfl := List.map_eq_nil_iff.1 hrest
  rfl

theorem yields_if {test yes no : Datum} {t : Value} (htest : Yields style limit f test m t m₁)
    (hchosen : Yields style limit f (if t.isTrue then yes else no) m₁ v m') :
    Yields style (limit + 1) f (.list [.symbol Form.ifElse.name, test, yes, no]) m v m' := by
  refine yields_form fun operands hoperands => ?_
  obtain ⟨x, rest, rfl, hx, hrest⟩ := List.map_eq_cons_iff.1 hoperands
  obtain ⟨y, rest, rfl, hy, hrest⟩ := List.map_eq_cons_iff.1 hrest
  obtain ⟨z, rest, rfl, hz, hrest⟩ := List.map_eq_cons_iff.1 hrest
  obtain rfl := List.map_eq_nil_iff.1 hrest
  refine (bind_of_eq_ok (htest x hx)).trans ?_
  split at hchosen
  · next ht => exact (if_pos ht).symm ▸ hchosen y hy
  · next ht => exact (if_neg ht).symm ▸ hchosen z hz

theorem yields_begin (h : YieldsAll style limit f ds m vs m') :
    Yields style (limit + 1) f (.list (.symbol Form.begin.name :: ds)) m
      (vs.getLast?.getD .nil) m' :=
  yields_form fun _ hoperands => h.sequence hoperands

/-- The definition of a function makes it of code that stands for the data of the body. -/
theorem exists_evaluate_define {x : Value} {names : List String} (hnodup : names.Nodup)
    (hx : x.toDatum? = some (.list (.symbol Form.define.name ::
      .list (.symbol name :: names.map .symbol) :: ds))) :
    ∃ body, body.map Value.toDatum? = ds.map some ∧ ∀ f,
      evaluate style (limit + 1) f x = Procedure.define ⟨name, names, body⟩ f := by
  obtain ⟨operands, hitems, hoperands⟩ := Value.exists_operands_of_toDatum? hx
  obtain ⟨target, body, rfl, htarget, hbody⟩ := List.map_eq_cons_iff.1 hoperands
  obtain ⟨formals, hparts, hformals⟩ := Value.exists_operands_of_toDatum? htarget
  obtain ⟨id, params, rfl, hparams⟩ := Value.toList?_eq_cons hparts
  have hsymbols : formals = names.map .symbol := Value.eq_map_symbol_of_toDatum? hformals
  refine ⟨body, hbody, fun f => ?_⟩
  exact Value.DefinesFunction.evaluate_eq ⟨id, hitems⟩ ⟨hsymbols ▸ hparams, hnodup⟩

/-! ## Calls -/

theorem yields_application {fn : Value} {args : List Value}
    (hname : Form.ofHead? (.symbol name) = none) (hfn : m.store.lookup f name = .ok fn)
    (hargs : YieldsAll style (limit + 1) f ds m args m₁)
    (hcall : fn.call style (limit + 1) (evaluate style (limit + 1)) args m₁ = .ok v m') :
    Yields style (limit + 2) f (.list (.symbol name :: ds)) m v m' := by
  intro x hx
  obtain ⟨operands, hitems, hoperands⟩ := Value.exists_operands_of_toDatum? hx
  obtain ⟨id, tail, rfl, htail⟩ := Value.toList?_eq_cons hitems
  have hoperator : evaluate style (limit + 1) f (.symbol name) m = .ok fn m :=
    yields_symbol hfn _ rfl
  exact (evaluate_application hname htail hoperator (hargs.mapM hoperands)).trans hcall

theorem Primitive.ofHead?_name (p : Primitive) : Form.ofHead? (.symbol p.name) = none := by
  have hall : ∀ q ∈ all, Form.ofName? q.name = none := by decide
  exact hall p (mem_all p)

theorem yields_primitive {p : Primitive} {id : Identity} {args : List Value}
    (hp : m.store.lookup f p.name = .ok (.primitive id p))
    (hargs : YieldsAll style (limit + 1) f ds m args m₁)
    (hcall : p.call style (limit + 1) args m₁ = .ok v m') :
    Yields style (limit + 2) f (.list (.symbol p.name :: ds)) m v m' :=
  yields_application p.ofHead?_name hp hargs hcall

theorem yields_function {id : ClosureId} {c : Closure} {names : List String} {args : List Value}
    {body : List Datum} (hname : Form.ofHead? (.symbol name) = none)
    (hfn : m.store.lookup f name = .ok (.closure id))
    (hargs : YieldsAll style (limit + 1) f ds m args m₁)
    (hrecord : m₁.store.closures[id]? = some c) (htakes : c.Takes names)
    (hlength : args.length = names.length) (hcode : c.body.map Value.toDatum? = body.map some)
    (hbody : YieldsAll style (limit + 1) m₁.store.frames.size body
      { m₁ with store := m₁.store.withArguments c.frame names args } vs m') :
    Yields style (limit + 2) f (.list (.symbol name :: ds)) m (vs.getLast?.getD .nil) m' := by
  refine yields_application hname hfn hargs ?_
  rw [Value.call_of_eq_some hrecord, htakes.call_eq hlength]
  exact hbody.sequence hcode

end Rules

end Keel
