/-! # Room

The recursion limit counts activations, that is, calls that are in progress inside
one another. An operation that nests spends several of them on each level, so the
limit admits a number of levels: the room of the operation. A margin is kept for
the calls that do not nest: those of the loop and of the log around an operation,
and those at its innermost level.
-/

namespace Keel

namespace Cost

/-- Reading what is quoted. -/
def quotation : Nat := 1

/-- Reading a datum that is a list, and its items. -/
def list : Nat := 2

/-- Reading a datum that is a list, its items, and the tail behind its dot. -/
def dottedList : Nat := 3

/-- Writing a list in the plain form. -/
def writtenList : Nat := 1

/-- Asking for the debug form of a part of a pair, and making it. -/
def inspectedPair : Nat := 2

/-- Telling first parts apart, by default through their equality, and comparing them. -/
def comparedPair : Nat := 3

/-- Taking an item of a list. -/
def takenItem : Nat := 1

/-- Making a pair of a list. -/
def madePair : Nat := 1

/-- Evaluating a form, and going through its operands. -/
def operand : Nat := 2

/-- Evaluating a form, and going through a sequence in it. -/
def sequence : Nat := 3

/-- Evaluating a call, applying the function, entering it, and going through its body. -/
def body : Nat := 4

/-- The calls that do not nest. -/
def margin : Nat := 100

end Cost

/-- The operations that nest. -/
inductive Operation where
  | reading
  | writing
  | inspecting
  | comparing
  | flattening
  | building
  | evaluating
  deriving DecidableEq, Repr

namespace Operation

/-- The activations that a level of the operation spends at most. -/
def cost : Operation → Nat
  | reading => max Cost.quotation (max Cost.list Cost.dottedList)
  | writing => Cost.writtenList
  | inspecting => Cost.inspectedPair
  | comparing => Cost.comparedPair
  | flattening => Cost.takenItem
  | building => Cost.madePair
  | evaluating => max Cost.operand (max Cost.sequence Cost.body)

/-- The levels that a recursion limit admits. -/
def room (op : Operation) (limit : Nat) : Nat :=
  (limit - Cost.margin) / op.cost

variable (op : Operation) {limit limit' n : Nat}

theorem cost_pos : 0 < op.cost := by
  cases op <;> decide

theorem le_room_iff : n ≤ op.room limit ↔ op.cost * n ≤ limit - Cost.margin := by
  rw [room, Nat.le_div_iff_mul_le op.cost_pos, Nat.mul_comm]

theorem le_room (h : op.cost * n + Cost.margin ≤ limit) : n ≤ op.room limit :=
  op.le_room_iff.2 (Nat.le_sub_of_add_le h)

theorem room_mono (h : limit ≤ limit') : op.room limit ≤ op.room limit' :=
  Nat.div_le_div_right (Nat.sub_le_sub_right h _)

/-- Nothing costs more than evaluation. -/
theorem room_evaluating_le (limit : Nat) : evaluating.room limit ≤ op.room limit := by
  have hcost : op.cost ≤ evaluating.cost := by cases op <;> decide
  exact Nat.div_le_div_left hcost op.cost_pos

end Operation

end Keel
