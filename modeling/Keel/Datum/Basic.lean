/-! # Data

A datum is what a text denotes: an atom or a pair of data. A list is a chain of
pairs along their second parts; it is proper if it ends in `nil`.
-/

namespace Keel

inductive Datum where
  | int (i : Int)
  | bool (b : Bool)
  | symbol (name : String)
  | nil
  | pair (car cdr : Datum)
  deriving DecidableEq, Repr, Inhabited

namespace Datum

def listTo (items : List Datum) (tail : Datum) : Datum :=
  items.foldr .pair tail

/-- The list whose items are given last to first and which ends in `tail`. -/
def reverseListTo (items : List Datum) (tail : Datum) : Datum :=
  items.foldl (fun rest item => .pair item rest) tail

def list (items : List Datum) : Datum :=
  listTo items .nil

@[simp] theorem listTo_nil (tail : Datum) : listTo [] tail = tail := rfl

@[simp] theorem listTo_cons (item : Datum) (items : List Datum) (tail : Datum) :
    listTo (item :: items) tail = .pair item (listTo items tail) := rfl

theorem reverseListTo_eq (items : List Datum) (tail : Datum) :
    reverseListTo items tail = listTo items.reverse tail := by
  simp [reverseListTo, listTo, List.foldr_reverse]

end Datum

end Keel
