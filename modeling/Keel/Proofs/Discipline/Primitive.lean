import Keel.Proofs.Discipline.Basic

/-! # Primitives keep disciplines

A primitive reads a character, writes a text, makes a list or a pair, or gives
a value that its arguments determine. Printing a value can only fail at a limit.
-/

namespace Keel

namespace Discipline

variable (D : Discipline)

structure Primitives (style : Style) : Prop where
  nextChar : ∀ {m}, D.Good m → D.Keeps m Action.nextChar fun _ _ => True
  write : ∀ {m limit v text}, D.Good m → D.Val v m →
    style.write m.store.closureName limit v = .ok text →
    D.Keeps m (Action.write text) fun _ _ => True
  newList : ∀ {m items}, D.Good m → (∀ v ∈ items, D.Val v m) →
    D.Keeps m (Action.updating (·.newList items .nil)) D.Val
  newPair : ∀ {m car cdr}, D.Good m → D.Val car m → D.Val cdr m →
    D.Keeps m (Action.updating (·.newPair car cdr)) D.Val
  val_int : ∀ {m i}, D.Val (.int i) m
  val_bool : ∀ {m b}, D.Val (.bool b) m
  val_ok : ∀ {m}, D.Val (.symbol "ok") m
  val_itoc : ∀ {m code c}, Primitive.characterOf? code = some c → D.Val (.symbol c.toString) m
  val_cat : ∀ {m a b}, D.Val (.symbol a) m → D.Val (.symbol b) m → D.Val (.symbol (a ++ b)) m
  val_car : ∀ {m id car cdr}, D.Val (.pair id car cdr) m → D.Val car m
  val_cdr : ∀ {m id car cdr}, D.Val (.pair id car cdr) m → D.Val cdr m

variable {D} {style : Style} {m : Machine}

theorem Primitives.val_apply (hp : D.Primitives style) {op : Arithmetic} {a b : Int} {v : Value}
    (h : op.apply a b = .ok v) : D.Val v m := by
  cases op with
  | div =>
    simp only [Arithmetic.apply] at h
    split at h
    · exact nomatch h
    · obtain rfl := Except.ok.inj h
      exact hp.val_int
  | add | sub | mul =>
    obtain rfl := Except.ok.inj h
    exact hp.val_int
  | less | greater | same =>
    obtain rfl := Except.ok.inj h
    exact hp.val_bool

theorem Primitives.keeps_call (hp : D.Primitives style) (h : D.Coherent) {limit : Nat}
    (p : Primitive) {args : List Value} (hm : D.Good m) (hargs : ∀ v ∈ args, D.Val v m) :
    D.Keeps m (p.call style limit args) D.Val := by
  unfold Primitive.call
  split
  · refine h.keeps_bind (hp.nextChar hm) fun c m' _ hm' _ => ?_
    cases c with
    | some c => exact h.keeps_pure hm' hp.val_int
    | none => exact h.keeps_pure hm' hp.val_int
  · next v =>
    refine h.keeps_bind (h.keeps_bounded hm (style.bounded _ limit v))
      fun text m' _ _ ⟨hm', htext⟩ => ?_
    subst hm'
    refine h.keeps_bind (hp.write hm (hargs v (by simp)) htext) fun _ m'' _ hm'' _ => ?_
    exact h.keeps_pure hm'' hp.val_ok
  · next code =>
    cases hc : Primitive.characterOf? code with
    | some c => exact h.keeps_pure hm (hp.val_itoc hc)
    | none =>
      exact h.keeps_bind
        (h.keeps_ofExcept hm fun fault hf => h.exceeded hm (Bounded.numeral code fault hf))
        fun _ _ _ hm' _ => h.keeps_misuse hm'
  · next a b => exact h.keeps_pure hm (hp.val_cat (hargs _ (by simp)) (hargs _ (by simp)))
  · next op a b =>
    cases ho : op.apply a b with
    | ok v => exact h.keeps_pure hm (hp.val_apply ho)
    | error cause => exact h.keeps_misuse hm
  · exact hp.newList hm hargs
  · exact hp.newPair hm (hargs _ (by simp)) (hargs _ (by simp))
  · exact h.keeps_pure hm (hp.val_car (hargs _ List.mem_cons_self))
  · exact h.keeps_pure hm (hp.val_cdr (hargs _ List.mem_cons_self))
  · exact h.keeps_pure hm hp.val_bool
  · exact h.keeps_pure hm hp.val_bool
  · exact h.keeps_misuse hm

end Discipline

end Keel
