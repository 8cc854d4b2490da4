import Keel.Proofs.LetForms.Nesting

/-! # Where forms evaluate

A form evaluates its expressions one after the other, each of them in a certain
frame and from the machine that those before it have left. To make the frame of a
body it evaluates initialisers, and nothing else there can fail. So where it fails,
an initialiser fails or an expression of the body.
-/

namespace Keel

/-! ## The first failure of several computations -/

section Failures

variable {ε σ α β : Type} {items : List β} {s t : σ} {fault : ε}

theorem exists_of_mapM_eq_error {F : β → EStateM ε σ α} (h : items.mapM F s = .error fault t) :
    ∃ before x after values s', items = before ++ x :: after ∧
      before.mapM F s = .ok values s' ∧ F x s' = .error fault t := by
  induction items generalizing s with
  | nil => exact nomatch h
  | cons x items ih =>
    rw [List.mapM_cons] at h
    rcases error_of_bind_eq_error h with hx | ⟨v, s₁, hx, h⟩
    · exact ⟨[], x, items, [], s, rfl, rfl, hx⟩
    · rcases error_of_bind_eq_error h with hitems | ⟨_, _, -, h⟩
      · obtain ⟨before, y, after, values, s', rfl, hbefore, hy⟩ := ih hitems
        refine ⟨x :: before, y, after, v :: values, s', rfl, ?_, hy⟩
        rw [List.mapM_cons, bind_of_eq_ok hx, bind_of_eq_ok hbefore]
        rfl
      · exact nomatch h

theorem exists_of_foldlM_eq_error {F : α → β → EStateM ε σ α} {a : α}
    (h : items.foldlM F a s = .error fault t) :
    ∃ before x after b s', items = before ++ x :: after ∧
      before.foldlM F a s = .ok b s' ∧ F b x s' = .error fault t := by
  induction items generalizing a s with
  | nil => exact nomatch h
  | cons x items ih =>
    rw [List.foldlM_cons] at h
    rcases error_of_bind_eq_error h with hx | ⟨b, s₁, hx, h⟩
    · exact ⟨[], x, items, a, s, rfl, rfl, hx⟩
    · obtain ⟨before, y, after, c, s', rfl, hbefore, hy⟩ := ih h
      refine ⟨x :: before, y, after, c, s', rfl, ?_, hy⟩
      rw [List.foldlM_cons, bind_of_eq_ok hx, hbefore]

theorem exists_of_forM_eq_error {F : β → EStateM ε σ Unit} (h : items.forM F s = .error fault t) :
    ∃ before x after s', items = before ++ x :: after ∧
      before.forM F s = .ok () s' ∧ F x s' = .error fault t := by
  induction items generalizing s with
  | nil => exact nomatch h
  | cons x items ih =>
    rw [List.forM_eq_forM, List.forM_cons] at h
    rcases error_of_bind_eq_error h with hx | ⟨_, s₁, hx, h⟩
    · exact ⟨[], x, items, s, rfl, rfl, hx⟩
    · obtain ⟨before, y, after, s', rfl, hbefore, hy⟩ := ih h
      refine ⟨x :: before, y, after, s', rfl, ?_, hy⟩
      rw [List.forM_eq_forM, List.forM_cons, bind_of_eq_ok hx]
      exact hbefore

end Failures

namespace Form

/-! ## The expressions of a form -/

section Places

variable (ev : Evaluator) (f : FrameId) (m : Machine)

def initialValue (b : String × Value) : Action Value := do
  Action.named (← ev f b.2) b.1

/-- To make the frame of a body, the form evaluates `x` in the frame `g` from the machine `n`. -/
inductive Initialises : Form → (bindings : List (String × Value)) → (x : Value) → (g : FrameId) →
    (n : Machine) → Prop where
  | letIn {before after : List (String × Value)} {name : String} {x : Value} {values : List Value}
    {n : Machine} :
    before.mapM (initialValue ev f) m = .ok values n →
    Initialises .letIn (before ++ (name, x) :: after) x f n
  | letStar {before after : List (String × Value)} {name : String} {x : Value} {g : FrameId}
    {n : Machine} :
    before.foldlM (bindFrame ev) f m = .ok g n →
    Initialises .letStar (before ++ (name, x) :: after) x g n
  | letRec {before after : List (String × Value)} {name : String} {x : Value} {g : FrameId}
    {cells : List CellId} {k n : Machine} :
    declareFrame f (before ++ (name, x) :: after) m = .ok (g, cells) k →
    initialise ev g cells before k = .ok () n →
    Initialises .letRec (before ++ (name, x) :: after) x g n

/-- The form makes the frame `g` of its body and leaves the machine `n`. -/
inductive Opens : Form → (bindings : List (String × Value)) → (g : FrameId) → (n : Machine) →
    Prop where
  | letIn {bindings : List (String × Value)} {g : FrameId} {n : Machine} :
    letFrame ev f bindings m = .ok g n → Opens .letIn bindings g n
  | letStar {bindings : List (String × Value)} {g : FrameId} {n : Machine} :
    letStarFrame ev f bindings m = .ok g n → Opens .letStar bindings g n
  | letRec {bindings : List (String × Value)} {g : FrameId} {n : Machine} :
    letRecFrame ev f bindings m = .ok g n → Opens .letRec bindings g n

/-- In the frame `f` and from the machine `m`, the form comes to evaluating `x` in the frame `g`
from the machine `n`. -/
inductive Visits : Form → (operands : List Value) → (x : Value) → (g : FrameId) → (n : Machine) →
    Prop where
  | test (test : Value) (branches : List Value) : Visits .ifElse (test :: branches) test f m
  | yes {test v : Value} {n : Machine} (yes : Value) (branches : List Value) :
    ev f test m = .ok v n → v.isTrue = true → Visits .ifElse (test :: yes :: branches) yes f n
  | no {test v : Value} {n : Machine} (yes no : Value) :
    ev f test m = .ok v n → v.isTrue = false → Visits .ifElse [test, yes, no] no f n
  | define (name : String) (expr : Value) : Visits .define [.symbol name, expr] expr f m
  | assign (name : String) (expr : Value) : Visits .assign [.symbol name, expr] expr f m
  | initialiser {form : Form} {bs x : Value} {bindings : List (String × Value)} {g : FrameId}
    {n : Machine} (body : List Value) :
    bs.bindings? = some bindings → form.Initialises ev f m bindings x g n →
    Visits form (bs :: body) x g n
  | body {form : Form} {bs x v : Value} {bindings : List (String × Value)}
    {before after : List Value} {g : FrameId} {k n : Machine} :
    bs.bindings? = some bindings → form.Opens ev f m bindings g k →
    sequence ev g before k = .ok v n → Visits form (bs :: (before ++ x :: after)) x g n

end Places

/-! ## Failures -/

variable {ev : Evaluator} {f g : FrameId} {m m' : Machine} {fault : Fault} {body : List Value}
  {bindings : List (String × Value)}

theorem sequence_eq_error (h : sequence ev g body m = .error fault m') :
    ∃ before x after v n, body = before ++ x :: after ∧
      sequence ev g before m = .ok v n ∧ ev g x n = .error fault m' :=
  exists_of_foldlM_eq_error h

theorem bindFrame_eq_error {b : String × Value} (h : bindFrame ev g b m = .error fault m') :
    ev g b.2 m = .error fault m' := by
  rcases error_of_bind_eq_error h with h | ⟨v, n, -, h⟩
  · exact h
  · exact nomatch h

theorem letFrame_eq_error (h : letFrame ev f bindings m = .error fault m') :
    ∃ b ∈ bindings, ∃ g n, letIn.Initialises ev f m bindings b.2 g n ∧
      ev g b.2 n = .error fault m' := by
  rcases error_of_bind_eq_error h with h | ⟨values, n, -, h⟩
  · obtain ⟨before, b, after, values, n, rfl, hbefore, hb⟩ := exists_of_mapM_eq_error h
    rcases error_of_bind_eq_error hb with hb | ⟨v, k, -, hb⟩
    · exact ⟨b, by simp, f, n, .letIn hbefore, hb⟩
    · exact nomatch hb
  · rcases error_of_bind_eq_error h with h | ⟨inner, k, -, h⟩
    · exact nomatch h
    · rcases error_of_bind_eq_error h with h | ⟨_, _, -, h⟩
      · obtain ⟨_, _, _, _, -, -, hdefine⟩ := exists_of_forM_eq_error h
        exact nomatch hdefine
      · exact nomatch h

theorem letStarFrame_eq_error (h : letStarFrame ev f bindings m = .error fault m') :
    ∃ b ∈ bindings, ∃ g n, letStar.Initialises ev f m bindings b.2 g n ∧
      ev g b.2 n = .error fault m' := by
  rcases error_of_bind_eq_error h with h | ⟨g, n, -, h⟩
  · obtain ⟨before, b, after, g, n, rfl, hbefore, hb⟩ := exists_of_foldlM_eq_error h
    exact ⟨b, by simp, g, n, .letStar hbefore, bindFrame_eq_error hb⟩
  · exact nomatch h

theorem declareFrame_ne_error : declareFrame f bindings m ≠ .error fault m' := by
  intro h
  rcases error_of_bind_eq_error h with h | ⟨inner, n, -, h⟩
  · exact nomatch h
  · rcases error_of_bind_eq_error h with h | ⟨_, _, -, h⟩
    · obtain ⟨_, _, _, _, _, -, -, hdeclare⟩ := exists_of_mapM_eq_error h
      exact nomatch hdeclare
    · exact nomatch h

theorem initialise_eq_error {cells : List CellId}
    (h : initialise ev g cells bindings m = .error fault m') :
    ∃ before b after n, bindings = before ++ b :: after ∧
      initialise ev g cells before m = .ok () n ∧ ev g b.2 n = .error fault m' := by
  obtain ⟨done, ⟨c, b⟩, rest, n, hzip, hdone, hb⟩ := exists_of_forM_eq_error h
  obtain ⟨ws, xs, before, zs, hlength, rfl, rfl, rfl, hrest⟩ := List.zip_eq_append_iff.1 hzip
  obtain ⟨cs, after, rfl, rfl, -⟩ := List.zip_eq_cons_iff.1 hrest.symm
  refine ⟨before, b, after, n, rfl, ?_, ?_⟩
  · have hzip : (ws ++ c :: cs).zip (before ++ []) = ws.zip before ++ (c :: cs).zip [] :=
      List.zip_append hlength
    rw [List.append_nil, List.zip_nil_right, List.append_nil] at hzip
    rw [initialise, hzip]
    exact hdone
  · rcases error_of_bind_eq_error hb with hb | ⟨v, k, -, hb⟩
    · exact hb
    · exact nomatch hb

theorem letRecFrame_eq_error (h : letRecFrame ev f bindings m = .error fault m') :
    ∃ b ∈ bindings, ∃ g n, letRec.Initialises ev f m bindings b.2 g n ∧
      ev g b.2 n = .error fault m' := by
  rcases error_of_bind_eq_error h with h | ⟨⟨g, cells⟩, k, hdeclare, h⟩
  · exact absurd h declareFrame_ne_error
  · rcases error_of_bind_eq_error h with h | ⟨_, _, -, h⟩
    · obtain ⟨before, b, after, n, rfl, hbefore, hb⟩ := initialise_eq_error h
      exact ⟨b, by simp, g, n, .letRec hdeclare hbefore, hb⟩
    · exact nomatch h

/-- Where a frame is made for a body, an initialiser fails or an expression of the body. -/
theorem exists_visits_of_body {form : Form} {bs : Value} {frame : Action FrameId}
    (hbs : bs.bindings? = some bindings)
    (hframe : frame m = .error fault m' → ∃ b ∈ bindings, ∃ g n,
      form.Initialises ev f m bindings b.2 g n ∧ ev g b.2 n = .error fault m')
    (hopens : ∀ g n, frame m = .ok g n → form.Opens ev f m bindings g n)
    (h : (frame >>= fun g => sequence ev g body) m = .error fault m') :
    ∃ x ∈ bindings.map Prod.snd ++ body, ∃ g n,
      form.Visits ev f m (bs :: body) x g n ∧ ev g x n = .error fault m' := by
  rcases error_of_bind_eq_error h with h | ⟨g, k, hok, hseq⟩
  · obtain ⟨b, hb, g, n, hinit, hfails⟩ := hframe h
    exact ⟨b.2, List.mem_append_left _ (List.mem_map_of_mem hb), g, n,
      .initialiser body hbs hinit, hfails⟩
  · obtain ⟨before, x, after, v, n, rfl, hbefore, hx⟩ := sequence_eq_error hseq
    exact ⟨x, by simp, g, n, .body hbs (hopens g k hok) hbefore, hx⟩

end Form

end Keel
