import Keel.Datum.Basic
import Keel.Primitive.Basic

/-! # Values

Values are what evaluation works on. Pairs and primitives carry the identity
they got when they were made; a closure is the number of its record in the store.
Two kinds come from the host only: `absent`, which also marks a cell that has
not been initialised, and `text`.
-/

namespace Keel

/-- What tells one pair, or one registration of the primitives, from another. -/
abbrev Identity := Nat

abbrev ClosureId := Nat

inductive Value where
  | int (i : Int)
  | bool (b : Bool)
  | symbol (name : String)
  | nil
  | pair (id : Identity) (car cdr : Value)
  | primitive (id : Identity) (p : Primitive)
  | closure (id : ClosureId)
  | absent
  | text (s : String)
  deriving DecidableEq, Repr, Inhabited

namespace Value

/-- All values but `#f` and `nil` count as true. -/
def isTrue : Value → Bool
  | .bool false => false
  | .nil => false
  | _ => true

def isPair : Value → Bool
  | .pair .. => true
  | _ => false

def isSymbol : Value → Bool
  | .symbol _ => true
  | _ => false

def toList? : Value → Option (List Value)
  | .nil => some []
  | .pair _ car cdr => cdr.toList?.map (car :: ·)
  | _ => none

/-- The list of the given items that ends in `tail`; its pairs are numbered from `id` on. -/
def listTo (id : Identity) : List Value → Value → Value
  | [], tail => tail
  | item :: items, tail => .pair id item (listTo (id + 1) items tail)

/-- The value of a datum, its pairs numbered from `id` on, and the next free number. -/
def ofDatum : Datum → Identity → Value × Identity
  | .int i, id => (.int i, id)
  | .bool b, id => (.bool b, id)
  | .symbol name, id => (.symbol name, id)
  | .nil, id => (.nil, id)
  | .pair car cdr, id =>
    let (car', next) := ofDatum car (id + 1)
    let (cdr', next') := ofDatum cdr next
    (.pair id car' cdr', next')

/-- The datum that a value stands for, if it is made of data only. -/
def toDatum? : Value → Option Datum
  | .int i => some (.int i)
  | .bool b => some (.bool b)
  | .symbol name => some (.symbol name)
  | .nil => some .nil
  | .pair _ car cdr => do return .pair (← car.toDatum?) (← cdr.toDatum?)
  | _ => none

@[simp] theorem toDatum?_ofDatum (d : Datum) (id : Identity) :
    (ofDatum d id).1.toDatum? = some d := by
  induction d generalizing id with
  | pair car cdr ihcar ihcdr => simp [ofDatum, toDatum?, ihcar, ihcdr]
  | _ => rfl

theorem toList?_listTo (id : Identity) (items : List Value) (tail : Value) :
    (listTo id items tail).toList? = tail.toList?.map (items ++ ·) := by
  induction items generalizing id with
  | nil => simp [listTo]
  | cons item items ih =>
    simp only [listTo, toList?, ih, Option.map_map]
    rfl

/-- The items of a list have what pairs pass on to both of their parts. -/
theorem forall_mem_of_toList? {P : Value → Prop}
    (hcar : ∀ {id car cdr}, P (.pair id car cdr) → P car)
    (hcdr : ∀ {id car cdr}, P (.pair id car cdr) → P cdr)
    {v : Value} {items : List Value} (hv : P v) (hi : v.toList? = some items) :
    ∀ x ∈ items, P x := by
  induction v generalizing items with
  | nil =>
    obtain rfl : [] = items := Option.some.inj hi
    exact List.forall_mem_nil P
  | pair id car cdr _ ih =>
    obtain ⟨rest, hr, rfl⟩ : ∃ rest, cdr.toList? = some rest ∧ car :: rest = items := by
      simpa only [toList?, Option.map_eq_some_iff] using hi
    exact List.forall_mem_cons.2 ⟨hcar hv, ih (hcdr hv) hr⟩
  | _ => cases hi

end Value

end Keel
