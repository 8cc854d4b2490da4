import Keel.Proofs.Equality

/-! # Identity of values

Values that are not pairs are identical if they are of one kind and equal. Pairs are
identical if they have the same number, so their identity is as good as the way in
which they are numbered: a list or a datum that is made takes the next free numbers.
-/

namespace Keel.Value

inductive Kind where
  | integer
  | truth
  | symbol
  | nil
  | pair
  | primitive
  | closure
  | absent
  | text
  deriving DecidableEq, Repr

def kind : Value → Kind
  | .int _ => .integer
  | .bool _ => .truth
  | .symbol _ => .symbol
  | .nil => .nil
  | .pair .. => .pair
  | .primitive .. => .primitive
  | .closure _ => .closure
  | .absent => .absent
  | .text _ => .text

/-- The value is `v`, or it is found in `v` by taking first parts and rests. -/
inductive Part (x : Value) : Value → Prop where
  | self : Part x x
  | car {id : Identity} {car cdr : Value} : Part x car → Part x (.pair id car cdr)
  | cdr {id : Identity} {car cdr : Value} : Part x cdr → Part x (.pair id car cdr)

inductive Tail (x : Value) : Value → Prop where
  | self : Tail x x
  | cdr {id : Identity} {car cdr : Value} : Tail x cdr → Tail x (.pair id car cdr)

/-- The pair, if the value is one, has the number `n` or a later one. -/
def NumberedFrom (n : Nat) : Value → Prop
  | .pair id _ _ => n ≤ id
  | _ => True

/-- What the identity of a value depends on. -/
def tag : Value → Value
  | .pair id _ _ => .pair id .nil .nil
  | v => v

variable {x y : Value} {n : Nat}

/-! ## Identity and equality -/

theorem identical_iff_eq (h : x.isPair = false ∨ y.isPair = false) :
    x.identical y = true ↔ x = y := by
  cases x <;> cases y <;> simp_all [identical, isPair]

theorem identical_iff_tag_eq : x.identical y = true ↔ x.tag = y.tag := by
  cases x <;> cases y <;> simp [identical, tag]

theorem identical_equivalence : Equivalence fun x y : Value => x.identical y = true where
  refl _ := identical_iff_tag_eq.2 rfl
  symm h := identical_iff_tag_eq.2 (identical_iff_tag_eq.1 h).symm
  trans h h' :=
    identical_iff_tag_eq.2 ((identical_iff_tag_eq.1 h).trans (identical_iff_tag_eq.1 h'))

theorem Alike.eq_of_kind_eq (h : Alike x y) (hkind : x.kind = y.kind) (hx : x.isPair = false) :
    x = y := by
  cases h with
  | number hx hy => cases x <;> cases y <;> grind [number?, kind]
  | pair => simp [isPair] at hx
  | _ => rfl

/-- Identity of values that are not both pairs is equality within one kind. -/
theorem identical_iff_kind_eq_and_equal (h : x.isPair = false ∨ y.isPair = false) (limit : Nat) :
    x.identical y = true ↔ x.kind = y.kind ∧ x.equal limit y = .ok true := by
  rw [identical_iff_eq h, equal_of_not_pairs h]
  constructor
  · rintro rfl
    exact ⟨rfl, congrArg _ ((equalAtoms_iff h).2 (.refl x))⟩
  · rintro ⟨hkind, hequal⟩
    have halike : Alike x y := (equalAtoms_iff h).1 (Except.ok.inj hequal)
    exact halike.eq_of_kind_eq hkind (h.elim id halike.isPair_eq.trans)

theorem equal_self (limit : Nat) (x : Value) :
    x.equal limit x = if x.nesting ≤ limit then .ok true else .error .tooDeep := by
  split
  · next hle =>
    obtain ⟨same, hsame⟩ := exists_equal_eq_ok (.inl hle)
    rw [hsame, (alike_iff_of_equal hsame).2 (.refl x)]
  · next hlt =>
    induction x generalizing limit with
    | pair id car cdr ihcar ihcdr =>
      cases limit with
      | zero => rw [equal]; rfl
      | succ inner =>
        have hdeep : ¬ (car.nesting ≤ inner ∧ cdr.nesting ≤ inner + 1) := by
          simpa [nesting, Nat.max_le] using hlt
        by_cases hcar : car.nesting ≤ inner
        · obtain ⟨same, hsame⟩ := exists_equal_eq_ok (x := car) (y := car) (.inl hcar)
          obtain rfl : same = true := (alike_iff_of_equal hsame).2 (.refl car)
          rw [equal_pair_of_true hsame]
          exact ihcdr (inner + 1) fun hcdr => hdeep ⟨hcar, hcdr⟩
        · exact equal_pair_of_error (ihcar inner hcar)
    | _ => simp [nesting] at hlt

/-! ## Numbers of pairs -/

theorem NumberedFrom.mono {n' : Nat} (h : x.NumberedFrom n') (hle : n ≤ n') : x.NumberedFrom n := by
  cases x with
  | pair => exact Nat.le_trans hle h
  | _ => trivial

theorem numberedFrom_of_tail_listTo {items : List Value}
    (h : x.Tail (.listTo n items .nil)) : x.NumberedFrom n := by
  induction items generalizing n with
  | nil =>
    cases h
    trivial
  | cons item items ih =>
    cases h with
    | self => exact Nat.le_refl n
    | cdr h => exact (ih h).mono (Nat.le_succ n)

theorem le_ofDatum (d : Datum) (n : Nat) : n ≤ (ofDatum d n).2 := by
  induction d generalizing n with
  | pair car cdr ihcar ihcdr =>
    exact Nat.le_trans (Nat.le_trans (Nat.le_succ n) (ihcar _)) (ihcdr _)
  | _ => exact Nat.le_refl n

theorem numberedFrom_of_part_ofDatum {d : Datum} (h : x.Part (ofDatum d n).1) :
    x.NumberedFrom n := by
  induction d generalizing n with
  | pair car cdr ihcar ihcdr =>
    cases h with
    | self => exact Nat.le_refl n
    | car h => exact (ihcar h).mono (Nat.le_succ n)
    | cdr h => exact (ihcdr h).mono (Nat.le_trans (Nat.le_succ n) (le_ofDatum car _))
  | _ =>
    cases h
    trivial

end Keel.Value
