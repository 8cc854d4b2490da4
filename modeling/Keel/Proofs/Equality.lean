import Mathlib.Data.List.Forall2
import Keel.Value.Equality

/-! # Structural equality

`equal` goes along two lists and compares their first parts on the way. What it
decides is the structural equality of values, which is an equivalence. The limit
counts along first parts only: where the nesting of one of the two values is
within it, there is an answer, whatever the length of the lists.
-/

namespace Keel.Value

/-- The number of first parts that are entered at most on the way to a part of the value. -/
def nesting : Value → Nat
  | .pair _ car cdr => max (car.nesting + 1) cdr.nesting
  | _ => 0

/-- Structural equality. Numbers and truth values are alike if they count as the same number,
primitives and closures if they are the very same. -/
inductive Alike : Value → Value → Prop where
  | number {x y : Value} {i : Int} : x.number? = some i → y.number? = some i → Alike x y
  | symbol (name : String) : Alike (.symbol name) (.symbol name)
  | nil : Alike .nil .nil
  | pair {car car' cdr cdr' : Value} (i j : Identity) :
      Alike car car' → Alike cdr cdr' → Alike (.pair i car cdr) (.pair j car' cdr')
  | primitive (id : Identity) (p : Primitive) : Alike (.primitive id p) (.primitive id p)
  | closure (id : ClosureId) : Alike (.closure id) (.closure id)
  | absent : Alike .absent .absent
  | text (s : String) : Alike (.text s) (.text s)

namespace Alike

variable {x y z : Value}

@[refl]
theorem refl (x : Value) : Alike x x := by
  induction x with
  | int i => exact .number rfl rfl
  | bool b => exact .number rfl rfl
  | symbol name => exact .symbol name
  | nil => exact .nil
  | pair id car cdr ihcar ihcdr => exact .pair id id ihcar ihcdr
  | primitive id p => exact .primitive id p
  | closure id => exact .closure id
  | absent => exact .absent
  | text s => exact .text s

@[symm]
theorem symm (h : Alike x y) : Alike y x := by
  induction h with
  | number hx hy => exact .number hy hx
  | pair i j _ _ ihcar ihcdr => exact .pair j i ihcar ihcdr
  | _ => exact refl _

theorem number?_eq (h : Alike x y) : x.number? = y.number? := by
  cases h with
  | number hx hy => rw [hx, hy]
  | _ => rfl

@[trans]
theorem trans (hxy : Alike x y) (hyz : Alike y z) : Alike x z := by
  induction hxy generalizing z with
  | number hx hy => exact .number hx (hyz.number?_eq ▸ hy)
  | pair i j _ _ ihcar ihcdr =>
    cases hyz with
    | number hy => simp [number?] at hy
    | pair _ k hcar hcdr => exact .pair i k (ihcar hcar) (ihcdr hcdr)
  | _ => exact hyz

theorem equivalence : Equivalence Alike :=
  ⟨refl, symm, trans⟩

@[simp]
theorem pair_iff {i j : Identity} {car car' cdr cdr' : Value} :
    Alike (.pair i car cdr) (.pair j car' cdr') ↔ Alike car car' ∧ Alike cdr cdr' := by
  constructor
  · intro h
    cases h with
    | number h => simp [number?] at h
    | pair _ _ hcar hcdr => exact ⟨hcar, hcdr⟩
  · rintro ⟨hcar, hcdr⟩
    exact .pair i j hcar hcdr

theorem isPair_eq (h : Alike x y) : x.isPair = y.isPair := by
  cases h with
  | @number x y i hx hy => cases x <;> cases y <;> simp [number?] at hx hy ⊢ <;> rfl
  | _ => rfl

theorem nesting_eq (h : Alike x y) : x.nesting = y.nesting := by
  induction h with
  | @number x y i hx hy => cases x <;> cases y <;> simp [number?] at hx hy ⊢ <;> rfl
  | pair i j _ _ ihcar ihcdr => simp only [nesting, ihcar, ihcdr]
  | _ => rfl

end Alike

/-! ## Lists -/

/-- Two lists whose ends are no pairs are alike item by item, and so are their ends. -/
theorem alike_listTo_iff {t u : Value} (ht : t.isPair = false) (hu : u.isPair = false)
    (i j : Identity) (xs ys : List Value) :
    Alike (listTo i xs t) (listTo j ys u) ↔ List.Forall₂ Alike xs ys ∧ Alike t u := by
  induction xs generalizing i j ys with
  | nil =>
    cases ys with
    | nil => simp [listTo]
    | cons y ys =>
      have : ¬ Alike t (listTo j (y :: ys) u) := fun h => by
        cases ht.symm.trans h.isPair_eq
      simpa [listTo] using this
  | cons x xs ih =>
    cases ys with
    | nil =>
      have : ¬ Alike (listTo i (x :: xs) t) u := fun h => by
        cases h.isPair_eq.trans hu
      simpa [listTo] using this
    | cons y ys => simp [listTo, ih, and_assoc]

/-! ## Answers -/

theorem equalAtoms_iff {x y : Value} (h : x.isPair = false ∨ y.isPair = false) :
    equalAtoms x y = true ↔ Alike x y := by
  constructor
  · intro heq
    unfold equalAtoms at heq
    split at heq
    next i j hx hy =>
      obtain rfl : i = j := by simpa using heq
      exact .number hx hy
    next =>
      obtain rfl : x = y := by simpa using heq
      exact .refl x
  · intro halike
    cases halike with
    | number hx hy => simp [equalAtoms, hx, hy]
    | pair => simp [isPair] at h
    | _ => simp [equalAtoms, number?]

section Pairs

variable {inner : Nat} {i j : Identity} {car car' cdr cdr' : Value}

theorem equal_pair_of_true (h : equal inner car car' = .ok true) :
    equal (inner + 1) (.pair i car cdr) (.pair j car' cdr') = equal (inner + 1) cdr cdr' := by
  rw [equal, h]
  rfl

theorem equal_pair_of_false (h : equal inner car car' = .ok false) :
    equal (inner + 1) (.pair i car cdr) (.pair j car' cdr') = .ok false := by
  rw [equal, h]
  rfl

theorem equal_pair_of_error {fault : Fault} (h : equal inner car car' = .error fault) :
    equal (inner + 1) (.pair i car cdr) (.pair j car' cdr') = .error fault := by
  rw [equal, h]
  rfl

end Pairs

theorem equal_of_not_pairs {limit : Nat} {x y : Value} (h : x.isPair = false ∨ y.isPair = false) :
    equal limit x y = .ok (equalAtoms x y) := by
  rw [equal]
  · rfl
  · rintro i car cdr j car' cdr' rfl rfl
    simp [isPair] at h

theorem alike_iff_of_equal {limit : Nat} {x y : Value} {same : Bool}
    (h : equal limit x y = .ok same) : same = true ↔ Alike x y := by
  induction limit, x, y using equal.induct generalizing same with
  | case1 => simp [equal] at h
  | case2 i car cdr j car' cdr' inner ihcar ihcdr =>
    rw [Alike.pair_iff]
    cases hcar : equal inner car car' with
    | error fault => simp [equal_pair_of_error hcar] at h
    | ok sameCar =>
      have hcars := ihcar hcar
      cases sameCar with
      | false =>
        obtain rfl : false = same := by simpa [equal_pair_of_false hcar] using h
        simp [← hcars]
      | true =>
        rw [equal_pair_of_true hcar] at h
        simp [← hcars, ihcdr h]
  | case3 limit x y hpairs =>
    have hatoms : x.isPair = false ∨ y.isPair = false := by
      cases x with
      | pair i car cdr =>
        cases y with
        | pair j car' cdr' => exact (hpairs i car cdr j car' cdr' rfl rfl).elim
        | _ => exact .inr rfl
      | _ => exact .inl rfl
    rw [equal_of_not_pairs hatoms] at h
    obtain rfl : equalAtoms x y = same := by simpa using h
    exact equalAtoms_iff hatoms

/-- There is an answer where one of the values is nested within the limit. -/
theorem exists_equal_eq_ok {limit : Nat} {x y : Value}
    (h : x.nesting ≤ limit ∨ y.nesting ≤ limit) : ∃ same, equal limit x y = .ok same := by
  induction limit, x, y using equal.induct with
  | case1 => simp [nesting] at h
  | case2 i car cdr j car' cdr' inner ihcar ihcdr =>
    simp only [nesting, Nat.max_le, Nat.succ_eq_add_one, Nat.add_le_add_iff_right] at h
    obtain ⟨sameCar, hcar⟩ := ihcar (h.imp And.left And.left)
    cases sameCar with
    | false => exact ⟨false, equal_pair_of_false hcar⟩
    | true => simpa only [equal_pair_of_true hcar] using ihcdr (h.imp And.right And.right)
  | case3 limit x y hpairs => exact ⟨_, by rw [equal]; exacts [rfl, hpairs]⟩

/-! ## The walk along two lists -/

def differAtoms (x y : Value) : Bool :=
  match x.number?, y.number? with
  | some i, some j => i != j
  | _, _ => x != y

/-- Whether two values differ. Only pairs take the answer from their equality. -/
def differ (limit : Nat) (x y : Value) : Except Fault Bool :=
  match x, y with
  | .pair .., .pair .. => do return !(← equal limit x y)
  | _, _ => return differAtoms x y

/-- Goes along two lists for as long as both have items and none of them differ from each other.
Lists of different lengths are not equal; where both lists end, their ends are compared. -/
def walk (inner : Nat) : Value → Value → Except Fault Bool
  | .pair _ car cdr, .pair _ car' cdr' => do
    if ← differ inner car car' then return false else walk inner cdr cdr'
  | .pair .., _ => return false
  | _, .pair .. => return false
  | x, y => return equalAtoms x y

theorem differAtoms_eq (x y : Value) : differAtoms x y = !equalAtoms x y := by
  unfold differAtoms equalAtoms
  cases x.number? <;> cases y.number? <;> rfl

theorem differ_eq (limit : Nat) (x y : Value) :
    differ limit x y = (!·) <$> equal limit x y := by
  unfold differ
  split
  · rfl
  · next hpairs =>
    rw [differAtoms_eq, equal]
    · rfl
    · exact hpairs

/-- Pairs are compared by the walk along them. -/
theorem equal_succ_eq_walk (inner : Nat) (x y : Value) :
    equal (inner + 1) x y = walk inner x y := by
  have hmixed : ∀ {x y : Value}, x.isPair ≠ y.isPair → equal (inner + 1) x y = .ok false := by
    intro x y h
    have hatoms : x.isPair = false ∨ y.isPair = false := by
      cases hx : x.isPair <;> simp_all
    have hne : equalAtoms x y ≠ true := fun heq => h ((equalAtoms_iff hatoms).1 heq).isPair_eq
    rw [equal_of_not_pairs hatoms, Bool.eq_false_iff.2 hne]
  induction x generalizing y with
  | pair i car cdr ihcar ihcdr =>
    cases y with
    | pair j car' cdr' =>
      rw [equal, walk, differ_eq]
      cases hcar : equal inner car car' with
      | error fault => rfl
      | ok same =>
        cases same with
        | false => rfl
        | true => exact ihcdr cdr'
    | _ => exact hmixed (by simp [isPair])
  | _ =>
    cases y with
    | pair j car' cdr' => exact hmixed (by simp [isPair])
    | _ => rfl

/-- Where one of two values is nested within the limit, `equal` tells whether they are alike and
`differ` tells the opposite, whatever the length of the lists; the walk along pairs gives the same
answers. To be alike is an equivalence. Lists are alike if and only if they have the same number of
items, which are alike one by one, and ends that are alike. -/
theorem equal_decides_alike :
    Equivalence Alike ∧
      (∀ (limit : Nat) (x y : Value), x.nesting ≤ limit ∨ y.nesting ≤ limit →
        ∃ same, equal limit x y = .ok same ∧ differ limit x y = .ok (!same) ∧
          (same = true ↔ Alike x y)) ∧
      (∀ (inner : Nat) (x y : Value), equal (inner + 1) x y = walk inner x y) ∧
      ∀ (i j : Identity) (xs ys : List Value) (t u : Value), t.isPair = false → u.isPair = false →
        (Alike (listTo i xs t) (listTo j ys u) ↔ List.Forall₂ Alike xs ys ∧ Alike t u) := by
  refine ⟨Alike.equivalence, fun limit x y h => ?_, equal_succ_eq_walk,
    fun i j xs ys t u ht hu => alike_listTo_iff ht hu i j xs ys⟩
  obtain ⟨same, hsame⟩ := exists_equal_eq_ok h
  refine ⟨same, hsame, ?_, alike_iff_of_equal hsame⟩
  rw [differ_eq, hsame]
  rfl

/-- The lists `(#t . 0)` and `(1 . #f)`, and the lists `(#t)` and `(1 nil)`. -/
theorem equal_decides_alike_truths :
    (∃ same, equal 1 (.pair 0 (.bool true) (.int 0)) (.pair 7 (.int 1) (.bool false)) = .ok same ∧
        differ 1 (.pair 0 (.bool true) (.int 0)) (.pair 7 (.int 1) (.bool false)) = .ok (!same) ∧
        (same = true ↔
          Alike (.pair 0 (.bool true) (.int 0)) (.pair 7 (.int 1) (.bool false)))) ∧
      ¬ Alike (listTo 0 [.bool true] .nil) (listTo 7 [.int 1, .nil] .nil) := by
  refine ⟨equal_decides_alike.2.1 1 _ _ (.inl (by decide)), fun h => ?_⟩
  have hitems := ((equal_decides_alike.2.2.2 0 7 _ _ .nil .nil rfl rfl).1 h).1
  simpa using hitems.length_eq

example : equal 1 (.pair 0 (.bool true) (.int 0)) (.pair 7 (.int 1) (.bool false)) = .ok true := by
  decide

end Keel.Value
