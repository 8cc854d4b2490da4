import Keel.Proofs.Limit
import Keel.Proofs.LetForms.Insertion
import Keel.Proofs.LetForms.Shape

/-! # `let` and `lambda`

A `let` binds names in a new frame as the call of a function does. The function
that is called instead has a record of its own, so the closures made afterwards
have other numbers; and a `let` names its closures, which a call does not do.
-/

namespace Keel

variable {style : Style} {limit limit' : Nat} {ev : Evaluator} {f : FrameId} {m : Machine}
  {bindings : List (String × Value)} {body : List Value} {v : Value}

/-- The value is written as the call of a `lambda` that has the names as parameters, with the
initialisers as operands. -/
def Value.Applies (bindings : List (String × Value)) (body : List Value) (v : Value) : Prop :=
  ∃ fn params, v.toList? = some (fn :: bindings.map Prod.snd) ∧
    fn.toList? = some (.symbol Form.lambda.name :: params :: body) ∧
    params.toList? = some (bindings.map (.symbol ·.1))

/-! ## Closures without names -/

def Store.Anonymous (s : Store) (v : Value) : Prop :=
  ∃ id c, v = .closure id ∧ s.closures[id]? = some c ∧ c.name = none

theorem Store.nameClosure_eq_self {s : Store} (h : ¬ s.Anonymous v) (name : String) :
    s.nameClosure v name = s := by
  cases v with
  | closure id =>
    have hclosures : (s.closures.modify id fun c => { c with name := c.name.or (some name) }) =
        s.closures := by
      refine Array.ext_getElem? fun i => ?_
      rw [Array.getElem?_modify]
      split
      · next heq =>
        subst heq
        cases hc : s.closures[id]? with
        | none => rfl
        | some c =>
          obtain ⟨n, hn⟩ := Option.ne_none_iff_exists'.1 fun hnone => h ⟨id, c, rfl, hc, hnone⟩
          simp only [Option.map_some, hn, Option.or]
          rw [← hn]
      · rfl
    simp only [nameClosure, hclosures]
  | _ => rfl

/-- Evaluated one after the other, none of the expressions has a closure without a name as its
value, with whatever room. -/
def NoneAnonymous (style : Style) (f : FrameId) : List Value → Machine → Prop
  | [], _ => True
  | expr :: exprs, m => ∀ limit v m', evaluate style limit f expr m = .ok v m' →
      ¬ m'.store.Anonymous v ∧ NoneAnonymous style f exprs m'

/-- It is enough to look at one evaluation that succeeds, since the others have the same outcome. -/
theorem NoneAnonymous.cons (limit : Nat) {expr : Value} {exprs : List Value} {m' : Machine}
    (h : evaluate style limit f expr m = .ok v m') (hv : ¬ m'.store.Anonymous v)
    (hrest : NoneAnonymous style f exprs m') : NoneAnonymous style f (expr :: exprs) m := by
  intro limit' v' m'' h'
  have hleft : evaluate style (max limit limit') f expr m = .ok v m' :=
    (evaluate_eq_of_le (Nat.le_max_left ..) (by rw [h]; exact nofun)).trans h
  have hright : evaluate style (max limit limit') f expr m = .ok v' m'' :=
    (evaluate_eq_of_le (Nat.le_max_right ..) (by rw [h']; exact nofun)).trans h'
  cases hleft.symm.trans hright
  exact ⟨hv, hrest⟩

/-- Then the names of a `let` are given to no closure. -/
theorem NoneAnonymous.mapM_named (h : NoneAnonymous style f (bindings.map Prod.snd) m)
    (limit : Nat) :
    (bindings.mapM fun (b : String × Value) => do
        Action.named (← evaluate style limit f b.2) b.1) m =
      (bindings.mapM fun (b : String × Value) => evaluate style limit f b.2) m := by
  induction bindings generalizing m with
  | nil => rfl
  | cons b bindings ih =>
    rw [List.mapM_cons, List.mapM_cons]
    cases hv : evaluate style limit f b.2 m with
    | error fault m' => rw [bind_of_eq_error (bind_of_eq_error hv), bind_of_eq_error hv]
    | ok v m' =>
      obtain ⟨hnamed, hrest⟩ := h limit v m' hv
      have hsame : Action.named v b.1 m' = .ok v m' := by
        show EStateM.Result.ok v { m' with store := m'.store.nameClosure v b.1 } = _
        rw [Store.nameClosure_eq_self hnamed]
      rw [bind_of_eq_ok ((bind_of_eq_ok hv).trans hsame), bind_of_eq_ok hv]
      exact bind_congr_at (ih hrest) _

/-! ## The function -/

def abstraction (bindings : List (String × Value)) (body : List Value) (f : FrameId) : Closure :=
  ⟨bindings.map (.symbol ·.1), body, f, none⟩

theorem evaluate_abstraction {fn params : Value}
    (hfn : fn.toList? = some (.symbol Form.lambda.name :: params :: body))
    (hparams : params.toList? = some (bindings.map (.symbol ·.1)))
    (hnodup : (bindings.map Prod.fst).Nodup) :
    evaluate style (limit + 1) f fn =
      Action.updating (·.newClosure (abstraction bindings body f)) := by
  have hnames : bindings.map (Value.symbol ·.1) = (bindings.map Prod.fst).map .symbol :=
    List.map_map.symm
  rw [hnames] at hparams
  rw [evaluate, step_lambda hfn ⟨hparams, hnodup⟩, abstraction, hnames]

def Form.valuesFrame (f : FrameId) (bindings : List (String × Value)) (values : List Value) :
    Action FrameId := do
  let inner ← Action.newFrame f
  (bindings.zip values).forM fun ((name, _), v) => Action.define inner name v
  return inner

theorem Form.letFrame_eq : Form.letFrame ev f bindings = (do
    let values ← bindings.mapM fun (b : String × Value) => do Action.named (← ev f b.2) b.1
    Form.valuesFrame f bindings values) :=
  rfl

theorem call_abstraction {args : List Value} (hlength : args.length = bindings.length) :
    (abstraction bindings body f).call limit ev args =
      Form.valuesFrame f bindings args >>= (Form.sequence ev · body) := by
  have hzip : (abstraction bindings body f).formals.zip args =
      (bindings.zip args).map fun p => (.symbol p.1.1, p.2) := List.zip_map_left ..
  have hcount : args.length = (abstraction bindings body f).formals.length := by
    rw [hlength, abstraction, List.length_map]
  have hbind : ∀ inner, ((bindings.zip args).map fun p => (Value.symbol p.1.1, p.2)).forM
        (fun p => discard (Scope.define limit inner p.1 p.2)) =
      (bindings.zip args).forM fun ((name, _), v) => Action.define inner name v := by
    intro inner
    simp only [List.forM_eq_forM, List.forM_map]
    rfl
  rw [Closure.call, if_pos hcount, hzip, Form.valuesFrame]
  simp only [bind_assoc, pure_bind]
  exact bind_congr fun inner => congrArg (· >>= fun _ => Form.sequence ev inner body) (hbind inner)

/-! ## Side by side -/

section SideBySide

variable {k : Nat} (hinit : ∀ b ∈ bindings, b.2.isRecorded k = true)
  (hbody : ∀ x ∈ body, x.isRecorded k = true)
include hinit hbody

/-- Where there is one more closure, namely the function, calling it with the values of the
initialisers goes on as binding the names to them does. -/
theorem Simulation.relates_application (style : Style) (limit : Nat) (f : FrameId) :
    (insertion k (abstraction bindings body f)).Relates
      (insertion k (abstraction bindings body f)).Renamed
      (do
        let values ← bindings.mapM fun (b : String × Value) => evaluate style limit f b.2
        Form.sequence (evaluate style limit) (← Form.valuesFrame f bindings values) body)
      (do
        let args ← (bindings.map Prod.snd).mapM (evaluate style limit f)
        (Value.closure k).call style limit (evaluate style limit) args) := by
  have h := lawful_insertion k (abstraction bindings body f)
  have hev := h.evaluate style limit
  -- The code refers to older closures alone, so it is the same under the numbers of the second run.
  refine relates_bind (relates_values bindings fun b hb => ?_) ?_
  · have hexpr := @hev f b.2 trivial
    have hsame : b.2.rename (insertion k (abstraction bindings body f)).number = b.2 :=
      Value.rename_past (hinit b hb)
    rwa [hsame] at hexpr
  · rintro values _ ⟨hlength, rfl⟩ m n hmn
    have hbindings : bindings.map (insertion k (abstraction bindings body f)).renameBinding =
        bindings := by
      refine (List.map_congr_left fun b hb => ?_).trans bindings.map_id
      exact Prod.ext rfl (Value.rename_past (hinit b hb))
    have hcode : (insertion k (abstraction bindings body f)).BindingsCode bindings :=
      fun _ _ => ⟨trivial, trivial⟩
    have hframe := h.bindFrame f hcode values
    rw [hbindings] at hframe
    rw [Value.call_of_eq_some hmn.store.extra, call_abstraction (by rw [List.length_map, hlength])]
    refine relates_bind hframe ?_ hmn
    rintro inner _ rfl
    have hall : (insertion k (abstraction bindings body f)).AllCode body := fun _ _ => trivial
    have hseq := Lawful.sequence hev inner hall
    have hsame : body.map (Value.rename (insertion k (abstraction bindings body f)).number) = body :=
      Value.map_rename_past hbody
    rwa [hsame] at hseq

/-- With the same room for both, and once naming does nothing, the `let` and the application go on
side by side. -/
theorem sameOutcome_application (limit : Nat) {bound applied : Value}
    (hk : k = m.store.closures.size)
    (hbound : bound.Binds .letIn bindings body) (happlied : applied.Applies bindings body)
    (hnodup : (bindings.map Prod.fst).Nodup) (hm : m.store.Complete)
    (hnone : NoneAnonymous style f (bindings.map Prod.snd) m) :
    SameOutcome (Simulation.insertion k (abstraction bindings body f)).Renamed
      (Simulation.insertion k (abstraction bindings body f)).Machines
      (evaluate style (limit + 2) f bound m) (evaluate style (limit + 2) f applied m) := by
  obtain ⟨fn, params, hcall, hfn, hparams⟩ := happlied
  have hhead : Form.ofHead? fn = none := by
    obtain ⟨id, tail, rfl, -⟩ := Value.toList?_eq_cons hfn
    rfl
  have hlet : evaluate style (limit + 2) f bound m = (do
      let values ← bindings.mapM fun (b : String × Value) => evaluate style (limit + 1) f b.2
      Form.sequence (evaluate style (limit + 1)) (← Form.valuesFrame f bindings values) body) m := by
    rw [evaluate, step_let hbound, Form.letFrame_eq, bind_assoc]
    exact bind_congr_at (hnone.mapM_named (limit + 1)) _
  have happlication : evaluate style (limit + 2) f applied m = (do
      let args ← (bindings.map Prod.snd).mapM (evaluate style (limit + 1) f)
      (Value.closure k).call style (limit + 1) (evaluate style (limit + 1)) args)
        { m with store := (m.store.newClosure (abstraction bindings body f)).2 } := by
    rw [evaluate, step_application hcall hhead, evaluate_abstraction hfn hparams hnodup, hk]
    rfl
  rw [hlet, happlication]
  refine Simulation.relates_application hinit hbody style (limit + 1) f ⟨?_, rfl, rfl⟩
  exact hk ▸ hm.inserted (abstraction bindings body f)

end SideBySide

/-- A `let` and the application of a `lambda` have the same outcome up to the numbers of the closures
made meanwhile, with the same output and input, if none of the initialisers has a closure without a
name as its value and neither fails for its depth. The stores are the same but for these numbers and
for the one closure more that is the function. That no store refers to a closure without a record is
so in every session, and evaluation preserves it. -/
theorem let_eq_application :
    (∀ (style : Style) (limit limit' : Nat) (f : FrameId) (m : Machine)
      (bindings : List (String × Value)) (body : List Value) (bound applied : Value),
      bound.Binds .letIn bindings body → applied.Applies bindings body →
      (bindings.map Prod.fst).Nodup →
      m.store.Complete → (∀ b ∈ bindings, m.store.Records b.2) → (∀ x ∈ body, m.store.Records x) →
      NoneAnonymous style f (bindings.map Prod.snd) m →
      (∀ m', evaluate style limit f bound m ≠ .error .tooDeep m') →
      (∀ m', evaluate style limit' f applied m ≠ .error .tooDeep m') →
      let k := m.store.closures.size
      SameOutcome (fun v w => w = v.rename (past k))
        (fun m' n' => Store.Inserted k (abstraction bindings body f) m'.store n'.store ∧
          n'.source = m'.source ∧ n'.output = m'.output)
        (evaluate style limit f bound m) (evaluate style limit' f applied m)) ∧
    (∀ k, Function.Injective (past k) ∧ ∀ id < k, past k id = id) ∧
    (∀ (style : Style) (limit : Nat) (f : FrameId) (expr : Value) (m : Machine),
      m.store.Complete → m.store.Records expr →
      ((evaluate style limit f expr).after m).store.Complete) ∧
    ∀ (source : Source) (deeds : List (Setup × Session.Deed)),
      ((Session.start source).afterAll deeds).machine.store.Complete := by
  refine ⟨?_, fun k => ⟨past_injective k, fun _ => past_of_lt⟩, ?_,
    Invariant.lawful_complete.holds_afterAll⟩
  · intro style limit limit' f m bindings body bound applied hbound happlied hnodup hm hinit hbody
      hnone hdeep hdeep' k
    have hrun := sameOutcome_application hinit hbody (limit + limit') rfl hbound happlied hnodup hm
      hnone
    rw [evaluate_eq_of_le (by omega) hdeep, evaluate_eq_of_le (by omega) hdeep'] at hrun
    exact hrun.imp (fun _ _ hvw => hvw) fun _ _ hmn => ⟨hmn.store, hmn.source, hmn.output⟩
  · intro style limit f expr m hm hexpr
    exact (Invariant.lawful_complete.leads_evaluate hm hexpr).holds

/-- The value of the body is a closure, which comes after the function where there is one. -/
theorem let_eq_application_lambda :
    let store := ((Store.empty.newFrame none).2.newClosure ⟨[], [.int 1], 0, some "g"⟩).2
    let m : Machine := ⟨store, .ofString "", ""⟩
    let bindings : List (String × Value) := [("x", .listTo 0 [.closure 0] .nil), ("y", .closure 0)]
    let body : List Value := [.listTo 0 [.symbol "lambda", .nil, .symbol "x"] .nil]
    let bound : Value := .ofBindings .letIn bindings body
    let names : Value := .listTo 0 [.symbol "x", .symbol "y"] .nil
    let fn : Value := .listTo 0 (.symbol "lambda" :: names :: body) .nil
    let applied : Value := .listTo 0 (fn :: bindings.map Prod.snd) .nil
    NoneAnonymous .plain 0 (bindings.map Prod.snd) m ∧
      SameOutcome (fun v w => w = v.rename (past 1))
        (fun m' n' => Store.Inserted 1 (abstraction bindings body 0) m'.store n'.store ∧
          n'.source = m'.source ∧ n'.output = m'.output)
        (evaluate .plain 3 0 bound m) (evaluate .plain 9 0 applied m) ∧
      ((evaluate .plain 3 0 bound).after m).store.closures.size = 2 ∧
      ((evaluate .plain 9 0 applied).after m).store.closures.size = 3 := by
  intro store m bindings body bound names fn applied
  have hnamed : ∀ n : Machine, n.store.closures = store.closures →
      ¬ n.store.Anonymous (.closure 0) := by
    rintro n hn ⟨id, c, hid, hc, hname⟩
    obtain rfl := Value.closure.inj hid
    rw [hn] at hc
    obtain rfl : _ = c := Option.some.inj hc
    exact nomatch hname
  have hnone : NoneAnonymous .plain 0 (bindings.map Prod.snd) m := by
    have hint : ¬ store.Anonymous (.int 1) := fun ⟨_, _, h, _⟩ => nomatch h
    exact .cons 2 rfl hint (.cons 1 rfl (hnamed _ rfl) trivial)
  have hstore : store.Complete :=
    (Invariant.lawful_complete.newFrame none .empty).holds.newClosure (by decide) (by decide)
  have hrun := let_eq_application.1 .plain 3 9 0 m bindings body bound applied
    (Value.binds_ofBindings ..) ⟨fn, names, rfl, rfl, rfl⟩ (by decide) hstore (by decide)
    (by decide) hnone (ne_tooDeep_of_failureOf (by decide +kernel))
    (ne_tooDeep_of_failureOf (by decide +kernel))
  exact ⟨hnone, hrun, by decide +kernel, by decide +kernel⟩

end Keel
