import Mathlib.Logic.Function.Basic
import Keel.Evaluation

/-! # Renaming closures

A closure is known by its number alone. Where all numbers in a value are changed,
different ones to different ones, the value has the same shape and is told in the
same way, and it is identical to the same values as before.
-/

namespace Keel

namespace Value

variable {ρ : ClosureId → ClosureId}

@[simp] theorem isTrue_rename (v : Value) : (v.rename ρ).isTrue = v.isTrue := by
  cases v <;> rfl

@[simp] theorem isSymbol_rename (v : Value) : (v.rename ρ).isSymbol = v.isSymbol := by
  cases v <;> rfl

@[simp] theorem isPair_rename (v : Value) : (v.rename ρ).isPair = v.isPair := by
  cases v <;> rfl

@[simp] theorem rename_eq_symbol_iff {v : Value} {name : String} :
    v.rename ρ = .symbol name ↔ v = .symbol name := by
  cases v <;> simp [rename]

theorem toList?_rename (v : Value) :
    (v.rename ρ).toList? = v.toList?.map (List.map (rename ρ)) := by
  induction v with
  | pair id car cdr _ ih =>
    simp only [rename, toList?, ih, Option.map_map]
    rfl
  | _ => rfl

theorem rename_listTo (id : Identity) (items : List Value) (tail : Value) :
    (listTo id items tail).rename ρ = listTo id (items.map (rename ρ)) (tail.rename ρ) := by
  induction items generalizing id with
  | nil => rfl
  | cons item items ih => simp only [listTo, rename, List.map_cons, ih]

theorem rename_injective (h : Function.Injective ρ) : Function.Injective (rename ρ) := by
  intro v
  induction v with
  | pair id car cdr ihcar ihcdr =>
    intro w heq
    cases w with
    | pair id' car' cdr' =>
      obtain ⟨rfl, hcar, hcdr⟩ := Value.pair.inj heq
      rw [ihcar hcar, ihcdr hcdr]
    | _ => cases heq
  | closure id =>
    intro w heq
    cases w with
    | closure id' => rw [h (Value.closure.inj heq)]
    | _ => cases heq
  | _ =>
    intro w heq
    cases w with
    | pair | closure => cases heq
    | _ => exact heq

theorem identical_rename (h : Function.Injective ρ) (a b : Value) :
    (a.rename ρ).identical (b.rename ρ) = a.identical b := by
  cases a with
  | pair id car cdr => cases b <;> rfl
  | closure id =>
    cases b with
    | closure id' =>
      have hiff : Value.closure (ρ id) = .closure (ρ id') ↔ Value.closure id = .closure id' :=
        (rename_injective h).eq_iff (a := .closure id) (b := .closure id')
      simpa only [rename, identical, beq_eq_decide] using decide_eq_decide.2 hiff
    | _ => rfl
  | _ => cases b <;> rfl

end Value

def Closure.rename (ρ : ClosureId → ClosureId) (c : Closure) : Closure :=
  { c with formals := c.formals.map (Value.rename ρ), body := c.body.map (Value.rename ρ) }

@[simp] theorem Closure.rename_id (c : Closure) : c.rename id = c := by
  have hid : Value.rename id = id := funext Value.rename_id
  simp only [rename, hid, List.map_id]

theorem Test.holds_rename {ρ : ClosureId → ClosureId} (kind : Test) (v : Value) :
    kind.holds (v.rename ρ) = kind.holds v := by
  cases kind with
  | null => cases v <;> rfl
  | atom => rw [holds, holds, Value.isPair_rename]
  | symbol => exact v.isSymbol_rename
  | integer => cases v <;> rfl

theorem Form.ofHead?_rename {ρ : ClosureId → ClosureId} (head : Value) :
    Form.ofHead? (head.rename ρ) = Form.ofHead? head := by
  cases head <;> rfl

end Keel
