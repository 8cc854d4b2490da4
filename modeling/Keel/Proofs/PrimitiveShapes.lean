import Keel.Primitive.Call
import Keel.Proofs.Initialisation.Store

/-! # Shapes of primitive calls

A primitive asks for a number and kind of arguments, and looks at them before it does
anything. A call of the right shape gives a value, and any other is refused with the
form of a good call, which leaves the machine as it was. The one exception is a
number that is no character code and too long for the refusal to quote it.
-/

namespace Keel

theorem Numeral.chars?_eq_none_iff {i : Int} : chars? i = none ↔ bound ≤ i.natAbs := by
  unfold chars?
  generalize bound = n
  cases i with
  | ofNat k => simp
  | negSucc k => simp

theorem Numeral.maxDigits_lt_bound : maxDigits < bound := by
  unfold bound
  generalize maxDigits = n
  exact Nat.lt_pow_self (by decide)

namespace Primitive

inductive Takes : Primitive → List Value → Prop where
  | getchar : Takes .getchar []
  | print (v : Value) : Takes .print [v]
  | itoc {code : Int} : 0 ≤ code → code ≤ 255 → Takes .itoc [.int code]
  | cat (a b : String) : Takes .cat [.symbol a, .symbol b]
  | arithmetic {op : Arithmetic} (a : Int) {b : Int} : (op = .div → b ≠ 0) →
      Takes (.arithmetic op) [.int a, .int b]
  | list (items : List Value) : Takes .list items
  | pair (a b : Value) : Takes .pair [a, b]
  | car (id : Identity) (first second : Value) : Takes .car [.pair id first second]
  | cdr (id : Identity) (first second : Value) : Takes .cdr [.pair id first second]
  | eq (a b : Value) : Takes .eq [a, b]
  | test (kind : Test) (v : Value) : Takes (.test kind) [v]

/-- A number to be made a character that has no numeral to be quoted by. -/
inductive Unquotable : Primitive → List Value → Prop where
  | itoc {code : Int} : Numeral.bound ≤ code.natAbs → Unquotable .itoc [.int code]

/-- The fault is a refusal of the primitive's own: its text starts as a call of the primitive. -/
structure RefusedBy (p : Primitive) (fault : Fault) : Prop where
  kind : fault.kind = "KeelTypeError"
  message : ∃ text, fault.message = "(" ++ p.name ++ text

variable {style : Style} {limit : Nat} {p : Primitive} {op : Arithmetic} {args : List Value}
  {m : Machine} {a b code : Int}

theorem Unquotable.not_takes (h : p.Unquotable args) : ¬ p.Takes args := by
  obtain ⟨hbound⟩ := h
  rintro ⟨⟩
  have hbelow := Numeral.maxDigits_lt_bound
  have hmany : 255 < Numeral.maxDigits := by decide
  generalize Numeral.bound = n at hbound hbelow
  omega

theorem exists_callForm (p : Primitive) (text : String) :
    ∃ text', p.callForm ++ text = "(" ++ p.name ++ text' :=
  ⟨p.operands ++ ")" ++ text, by simp [callForm, String.append_assoc]⟩

theorem refusedBy_badCall (p : Primitive) : p.RefusedBy (.misuse (.badCall p)) where
  kind := rfl
  message := by
    obtain ⟨text, h⟩ := p.exists_callForm ""
    exact ⟨text, String.append_empty.symm.trans h⟩

theorem refusedBy_notCharacterCode (shown : String) :
    itoc.RefusedBy (.misuse (.notCharacterCode shown)) where
  kind := rfl
  message := by
    obtain ⟨text, h⟩ := itoc.exists_callForm (": " ++ shown ++ " is not a character code")
    refine ⟨text, ?_⟩
    rw [← h, ← String.append_assoc, ← String.append_assoc]
    rfl

theorem refusedBy_divisionByZero :
    (arithmetic .div).RefusedBy (.misuse .divisionByZero) where
  kind := rfl
  message := (arithmetic .div).exists_callForm ": division by zero"

theorem apply_cases (op : Arithmetic) (a b : Int) :
    (∃ v, op.apply a b = .ok v ∧ v.isKeel = true ∧ (op = .div → b ≠ 0)) ∨
      (op = .div ∧ b = 0 ∧ op.apply a b = .error .divisionByZero) := by
  cases op with
  | div =>
    by_cases hb : b = 0
    · exact .inr ⟨rfl, hb, if_pos hb⟩
    · exact .inl ⟨_, if_neg hb, rfl, fun _ => hb⟩
  | _ => exact .inl ⟨_, rfl, rfl, nofun⟩

theorem characterOf?_cases (code : Int) :
    (∃ c, characterOf? code = some c ∧ 0 ≤ code ∧ code ≤ 255) ∨
      (characterOf? code = none ∧ ¬ (0 ≤ code ∧ code ≤ 255)) := by
  unfold characterOf?
  split
  · next h => exact .inl ⟨_, rfl, h⟩
  · next h => exact .inr ⟨rfl, h⟩

inductive Ends (p : Primitive) (args : List Value) (m : Machine) :
    EStateM.Result Fault Machine Value → Prop where
  | value {v : Value} {m' : Machine} : p.Takes args → v.isKeel = true → Ends p args m (.ok v m')
  | refused {fault : Fault} : ¬ p.Takes args → ¬ p.Unquotable args → p.RefusedBy fault →
      Ends p args m (.error fault m)
  | tooLong : ¬ p.Takes args → p.Unquotable args → Ends p args m (.error .tooLong m)

theorem ends_itoc (style : Style) (limit : Nat) (code : Int) (m : Machine) :
    Ends .itoc [.int code] m (call style limit .itoc [.int code] m) := by
  rcases characterOf?_cases code with ⟨c, hc, hlo, hhi⟩ | ⟨hc, hrange⟩
  · simp only [call, hc]
    exact .value (.itoc hlo hhi) rfl
  have htakes : ¬ Takes .itoc [.int code] := by
    rintro ⟨⟩
    simp_all
  cases hchars : Numeral.chars? code with
  | some cs =>
    have hquotable : ¬ Unquotable .itoc [.int code] := by
      rintro ⟨hbound⟩
      simp [Numeral.chars?_eq_none_iff.2 hbound] at hchars
    have hcall : call style limit .itoc [.int code] m =
        .error (.misuse (.notCharacterCode (String.ofList cs))) m := by
      simp only [call, hc, Value.numeral, hchars]
      rfl
    rw [hcall]
    exact .refused htakes hquotable (refusedBy_notCharacterCode _)
  | none =>
    have hcall : call style limit .itoc [.int code] m = .error .tooLong m := by
      simp only [call, hc, Value.numeral, hchars]
      rfl
    rw [hcall]
    exact .tooLong htakes (.itoc (Numeral.chars?_eq_none_iff.1 hchars))

theorem ends_arithmetic (style : Style) (limit : Nat) (op : Arithmetic) (a b : Int) (m : Machine) :
    Ends (.arithmetic op) [.int a, .int b] m
      (call style limit (.arithmetic op) [.int a, .int b] m) := by
  rcases apply_cases op a b with ⟨v, happly, hv, hb⟩ | ⟨rfl, rfl, happly⟩
  · simp only [call, happly]
    exact .value (.arithmetic a hb) hv
  · have htakes : ¬ Takes (.arithmetic .div) [.int a, .int 0] := by
      rintro ⟨⟩
      simp_all
    simp only [call, happly]
    exact .refused htakes nofun refusedBy_divisionByZero

theorem ends_getchar (style : Style) (limit : Nat) (m : Machine) :
    Ends .getchar [] m (call style limit .getchar [] m) := by
  obtain ⟨c, m', hnext⟩ : ∃ c m', Action.nextChar m = .ok c m' := ⟨_, _, rfl⟩
  simp only [call]
  rw [bind_of_eq_ok hnext]
  cases c with
  | none => exact .value .getchar rfl
  | some c => exact .value .getchar rfl

theorem isKeel_of_pair {id : Identity} {first second : Value}
    (h : ∀ v ∈ [Value.pair id first second], v.isKeel = true) :
    first.isKeel = true ∧ second.isKeel = true := by
  simpa [Value.isKeel] using h

theorem ends_call (style : Style) (limit : Nat) (m : Machine) (hp : p ≠ .print)
    (hargs : ∀ v ∈ args, v.isKeel = true) : Ends p args m (p.call style limit args m) := by
  unfold call
  split
  · exact ends_getchar style limit m
  · exact absurd rfl hp
  · exact ends_itoc style limit _ m
  · exact .value (.cat _ _) rfl
  · exact ends_arithmetic style limit _ _ _ m
  · exact .value (.list args) (Value.isKeel_listTo _ hargs rfl)
  · exact .value (.pair _ _) (by simp_all [Value.isKeel])
  · exact .value (.car _ _ _) (isKeel_of_pair hargs).1
  · exact .value (.cdr _ _ _) (isKeel_of_pair hargs).2
  · exact .value (.eq _ _) rfl
  · exact .value (.test _ _) rfl
  · -- No other arguments are taken.
    have htakes : ¬ p.Takes args := by
      rintro ⟨⟩ <;> simp_all
    have hquotable : ¬ p.Unquotable args := by
      rintro ⟨⟩
      simp_all
    exact .refused htakes hquotable (refusedBy_badCall p)

end Primitive

/-- Every primitive but `print` gives a Keel value where it takes its Keel arguments, and refuses
them otherwise with a fault of its own, leaving the machine as it was, so that no input is consumed.
The exception is a number without a numeral that is to be made a character: the refusal would have
to quote it, so that it fails as a numeral that is too long. -/
theorem primitive_fails_by_shape (style : Style) (limit : Nat) (p : Primitive) (hp : p ≠ .print)
    (args : List Value) (hargs : ∀ v ∈ args, v.isKeel = true) (m : Machine) :
    (p.Takes args → ∃ v m', p.call style limit args m = .ok v m' ∧ v.isKeel = true) ∧
    (¬ p.Takes args → ¬ p.Unquotable args →
      ∃ fault, p.call style limit args m = .error fault m ∧ p.RefusedBy fault) ∧
    (p.Unquotable args → ¬ p.Takes args ∧ p.call style limit args m = .error .tooLong m) := by
  have hends := Primitive.ends_call style limit m hp hargs
  generalize p.call style limit args m = result at hends ⊢
  cases hends with
  | value htakes hv =>
    refine ⟨fun _ => ⟨_, _, rfl, hv⟩, fun h => absurd htakes h, ?_⟩
    intro hunquotable
    exact absurd htakes hunquotable.not_takes
  | refused htakes hquotable hfault =>
    exact ⟨fun h => absurd h htakes, fun _ _ => ⟨_, rfl, hfault⟩, fun h => absurd h hquotable⟩
  | tooLong htakes hunquotable =>
    exact ⟨fun h => absurd h htakes, fun _ h => absurd hunquotable h, fun _ => ⟨htakes, rfl⟩⟩

/-- The least number without a numeral is not made a character, and cannot be quoted. An argument of
`getchar` is refused, and the character that lies ahead is not read. -/
theorem primitive_fails_by_shape_itoc :
    let m : Machine := ⟨.empty, .ofString "a", ""⟩
    let code : Value := .int Numeral.bound
    code.isKeel = true ∧ Primitive.itoc.Unquotable [code] ∧
      Primitive.itoc.call .plain 10 [code] m = .error .tooLong m ∧
      ¬ Primitive.getchar.Takes [code] ∧
      ∃ fault, Primitive.getchar.call .plain 10 [code] m = .error fault m ∧
        Primitive.getchar.RefusedBy fault := by
  intro m code
  have hkeel : ∀ v ∈ [code], v.isKeel = true := by
    rintro v (_ | ⟨_, ⟨⟩⟩)
    rfl
  have hunquotable : Primitive.itoc.Unquotable [code] := by
    constructor
    exact Nat.le_of_eq (Int.natAbs_natCast _).symm
  have hshape : ∀ v, ¬ Primitive.getchar.Takes [v] ∧ ¬ Primitive.getchar.Unquotable [v] :=
    fun v => ⟨nofun, nofun⟩
  obtain ⟨-, -, hitoc⟩ := primitive_fails_by_shape .plain 10 .itoc nofun [code] hkeel m
  obtain ⟨-, hgetchar, -⟩ := primitive_fails_by_shape .plain 10 .getchar nofun [code] hkeel m
  exact ⟨rfl, hunquotable, (hitoc hunquotable).2, (hshape code).1,
    hgetchar (hshape code).1 (hshape code).2⟩

end Keel
