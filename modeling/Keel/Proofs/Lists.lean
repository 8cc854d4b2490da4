import Keel.Machine
import Keel.Proofs.Equality

/-! # Lists as items and an end

Taken as a list, a value has items, which are the first parts along its second parts,
and an end, which is no pair. Making a list puts items in front, and flattening gives
all items if the end is `nil`. So the two undo one another, up to the pairs that the
lists are made of.
-/

namespace Keel

namespace Value

def items : Value → List Value
  | .pair _ car cdr => car :: cdr.items
  | _ => []

def ending : Value → Value
  | .pair _ _ cdr => cdr.ending
  | v => v

inductive ProperList : Value → Prop where
  | nil : ProperList .nil
  | pair (id : Identity) (car : Value) {cdr : Value} :
      ProperList cdr → ProperList (.pair id car cdr)

/-- The values are lists of the very same items with the very same end. They may be made of
different pairs. -/
structure SameList (v w : Value) : Prop where
  items : v.items = w.items
  ending : v.ending = w.ending

variable {v w : Value} {xs : List Value}

theorem properList_iff : v.ProperList ↔ v.ending = .nil := by
  constructor
  · intro h
    induction h with
    | nil => rfl
    | pair _ _ _ ih => exact ih
  · intro h
    induction v with
    | pair id car cdr _ ih => exact .pair id car (ih h)
    | nil => exact .nil
    | _ => exact nomatch h

/-- A list is flattened if it is proper, and it loses nothing but its pairs. -/
theorem toList?_eq_some_iff : v.toList? = some xs ↔ v.ending = .nil ∧ v.items = xs := by
  induction v generalizing xs with
  | pair id car cdr _ ih =>
    rw [toList?, Option.map_eq_some_iff]
    constructor
    · rintro ⟨rest, hrest, rfl⟩
      obtain ⟨hending, rfl⟩ := ih.1 hrest
      exact ⟨hending, rfl⟩
    · rintro ⟨hending, rfl⟩
      exact ⟨cdr.items, ih.2 ⟨hending, rfl⟩, rfl⟩
  | _ => simp [toList?, items, ending]

theorem toList?_eq_none_iff : v.toList? = none ↔ ¬ v.ProperList := by
  rw [properList_iff, Option.eq_none_iff_forall_not_mem]
  exact ⟨fun h hv => h _ (toList?_eq_some_iff.2 ⟨hv, rfl⟩),
    fun h _ hxs => h (toList?_eq_some_iff.1 hxs).1⟩

/-! ## Making lists -/

@[simp] theorem items_listTo (id : Identity) (xs : List Value) (tail : Value) :
    (listTo id xs tail).items = xs ++ tail.items := by
  induction xs generalizing id with
  | nil => rfl
  | cons x xs ih => rw [listTo, items, ih, List.cons_append]

@[simp] theorem ending_listTo (id : Identity) (xs : List Value) (tail : Value) :
    (listTo id xs tail).ending = tail.ending := by
  induction xs generalizing id with
  | nil => rfl
  | cons x xs ih => rw [listTo, ending, ih]

/-- Two lists that are made one in front of the other are one list. -/
theorem sameList_listTo_append (i j k : Identity) (xs ys : List Value) (tail : Value) :
    (listTo i xs (listTo j ys tail)).SameList (listTo k (xs ++ ys) tail) where
  items := by simp
  ending := by simp

theorem sameList_of_toList? (h : v.toList? = some xs) (id : Identity) :
    (listTo id xs .nil).SameList v := by
  obtain ⟨hending, rfl⟩ := toList?_eq_some_iff.1 h
  constructor
  · rw [items_listTo]
    exact List.append_nil _
  · rw [ending_listTo]
    exact hending.symm

theorem exists_toList?_iff :
    (∃ xs, v.toList? = some xs) ↔ ∃ id xs, v.SameList (listTo id xs .nil) := by
  constructor
  · rintro ⟨xs, hxs⟩
    have h := sameList_of_toList? hxs 0
    exact ⟨0, xs, h.items.symm, h.ending.symm⟩
  · rintro ⟨id, xs, h⟩
    have hending : v.ending = .nil := by
      rw [h.ending, ending_listTo]
      rfl
    exact ⟨v.items, toList?_eq_some_iff.2 ⟨hending, rfl⟩⟩

theorem alike_listTo_items (v : Value) (id : Identity) :
    v.Alike (listTo id v.items v.ending) := by
  induction v generalizing id with
  | pair i car cdr _ ih => exact .pair i id (.refl car) (ih (id + 1))
  | _ => exact .refl _

theorem SameList.alike (h : v.SameList w) : v.Alike w := by
  have hw := w.alike_listTo_items 0
  rw [← h.items, ← h.ending] at hw
  exact (v.alike_listTo_items 0).trans hw.symm

/-! ## Lists that are read -/

/-- The value of a list of data is the list of their values. -/
theorem exists_sameList_of_toDatum? {ds : List Datum} {d : Datum}
    (h : v.toDatum? = some (.listTo ds d)) : ∃ xs tail, xs.map toDatum? = ds.map some ∧
      tail.toDatum? = some d ∧ ∀ id, v.SameList (listTo id xs tail) := by
  induction ds generalizing v with
  | nil => exact ⟨[], v, rfl, h, fun _ => ⟨rfl, rfl⟩⟩
  | cons e ds ih =>
    cases v with
    | pair id car cdr =>
      obtain ⟨hcar, hcdr⟩ : car.toDatum? = some e ∧ cdr.toDatum? = some (.listTo ds d) := by
        simpa [toDatum?, Option.bind_eq_some_iff] using h
      obtain ⟨xs, tail, hxs, htail, hlist⟩ := ih hcdr
      refine ⟨car :: xs, tail, ?_, htail, fun id' => ⟨?_, (hlist (id' + 1)).ending⟩⟩
      · rw [List.map_cons, hcar, hxs, List.map_cons]
      · exact congrArg (car :: ·) (hlist (id' + 1)).items
    | _ => simp [toDatum?] at h

theorem exists_toList?_of_toDatum? {ds : List Datum} (h : v.toDatum? = some (.list ds)) :
    ∃ xs, v.toList? = some xs ∧ xs.map toDatum? = ds.map some := by
  obtain ⟨xs, tail, hxs, htail, hlist⟩ := exists_sameList_of_toDatum? h
  obtain rfl : tail = .nil := by
    cases tail with
    | pair => simp [toDatum?, Option.bind_eq_some_iff] at htail
    | nil => rfl
    | _ => simp [toDatum?] at htail
  refine ⟨xs, toList?_eq_some_iff.2 ⟨?_, ?_⟩, hxs⟩
  · exact (hlist 0).ending.trans (ending_listTo 0 xs .nil)
  · rw [(hlist 0).items, items_listTo]
    exact List.append_nil xs

end Value

/-! ## Flattening -/

namespace Action

variable {v : Value} {xs : List Value} {m m' : Machine}

theorem properList_of_properList (h : v.ProperList) (construct : String) (m : Machine) :
    properList construct v m = .ok v.items m := by
  rw [properList, Value.toList?_eq_some_iff.2 ⟨Value.properList_iff.1 h, rfl⟩]
  rfl

theorem properList_of_not_properList (h : ¬ v.ProperList) (construct : String) (m : Machine) :
    properList construct v m = .error (.misuse (.improperList construct)) m := by
  rw [properList, Value.toList?_eq_none_iff.2 h]
  rfl

theorem properList_eq_ok_iff {construct : String} :
    properList construct v m = .ok xs m' ↔ v.toList? = some xs ∧ m' = m := by
  unfold properList
  cases v.toList? with
  | none => exact ⟨nofun, nofun⟩
  | some ys =>
    constructor
    · intro h
      obtain ⟨rfl, rfl⟩ := EStateM.Result.ok.inj h
      exact ⟨rfl, rfl⟩
    · rintro ⟨h, rfl⟩
      rw [Option.some.inj h]
      rfl

end Action

/-- Making a list and flattening it undo one another, whatever is put in front of what. The list of
items in front of a tail is flattened to the items and those of the tail if the tail is a proper
list, and it is refused otherwise, under the name of the construct that it belongs to. Two lists made
one in front of the other are one list. Where flattening succeeds, the items make the same list, with
the same end, so it succeeds exactly on the lists that are made in front of `nil`. What is the same
list is structurally equal. Lists that are read are lists of the values of their items, too. -/
theorem flattening_undoes_making :
    (∀ (construct : String) (xs : List Value) (tail : Value) (m : Machine),
      let made := m.store.newList xs tail
      let m' : Machine := { m with store := made.2 }
      (tail.ProperList → ∃ rest, Action.properList construct tail m = .ok rest m ∧
        Action.properList construct made.1 m' = .ok (xs ++ rest) m') ∧
      (¬ tail.ProperList → ∃ fault, Action.properList construct made.1 m' = .error fault m' ∧
        fault.kind = "KeelTypeError" ∧ fault.message = construct ++ ": expected a proper list")) ∧
    (∀ (xs ys : List Value) (tail : Value) (s : Store),
      let inner := s.newList ys tail
      (inner.2.newList xs inner.1).1.SameList (s.newList (xs ++ ys) tail).1) ∧
    (∀ (construct : String) (v : Value) (xs : List Value) (m m' : Machine),
      Action.properList construct v m = .ok xs m' →
        m' = m ∧ ∀ s : Store, (s.newList xs .nil).1.SameList v) ∧
    (∀ (construct : String) (v : Value) (m : Machine),
      (∃ xs m', Action.properList construct v m = .ok xs m') ↔
        ∃ (s : Store) (xs : List Value), v.SameList (s.newList xs .nil).1) ∧
    (∀ v w : Value, v.SameList w → v.Alike w) ∧
    ∀ (items : List Datum) (tail : Datum) (v : Value),
      v.toDatum? = some (.reverseListTo items tail) →
        ∃ xs t, xs.map Value.toDatum? = items.reverse.map some ∧ t.toDatum? = some tail ∧
          ∀ s : Store, v.SameList (s.newList xs t).1 := by
  refine ⟨fun construct xs tail m => ?_, fun xs ys tail s => ?_, fun construct v xs m m' h => ?_,
    fun construct v m => ?_, fun v w => Value.SameList.alike, fun items tail v hv => ?_⟩
  · intro made m'
    have hproper : made.1.ProperList ↔ tail.ProperList := by
      rw [Value.properList_iff, Value.properList_iff]
      exact Iff.of_eq (congrArg (· = Value.nil) (Value.ending_listTo _ xs tail))
    constructor
    · intro htail
      refine ⟨tail.items, Action.properList_of_properList htail construct m, ?_⟩
      rw [Action.properList_of_properList (hproper.2 htail), ← Value.items_listTo]
      rfl
    · intro htail
      have hmade : ¬ made.1.ProperList := htail ∘ hproper.1
      exact ⟨_, Action.properList_of_not_properList hmade construct m', rfl, rfl⟩
  · exact Value.sameList_listTo_append _ _ _ xs ys tail
  · obtain ⟨hxs, hm⟩ := Action.properList_eq_ok_iff.1 h
    exact ⟨hm, fun s => Value.sameList_of_toList? hxs s.nextId⟩
  · constructor
    · rintro ⟨xs, m', h⟩
      obtain ⟨id, ys, hlist⟩ := Value.exists_toList?_iff.1 ⟨xs, (Action.properList_eq_ok_iff.1 h).1⟩
      exact ⟨{ m.store with nextId := id }, ys, hlist⟩
    · rintro ⟨s, ys, hlist⟩
      obtain ⟨xs, hxs⟩ := Value.exists_toList?_iff.2 ⟨s.nextId, ys, hlist⟩
      exact ⟨xs, m, Action.properList_eq_ok_iff.2 ⟨hxs, rfl⟩⟩
  · rw [Datum.reverseListTo_eq] at hv
    obtain ⟨xs, t, hxs, ht, hlist⟩ := Value.exists_sameList_of_toDatum? hv
    exact ⟨xs, t, hxs, ht, fun s => hlist s.nextId⟩

/-- Behind two items a list of one item is flattened with them. A dotted end is refused, as a clause
of a `cond` would be. -/
theorem flattening_undoes_making_dotted :
    let m : Machine := ⟨.empty, .ofString "", ""⟩
    let tail : Value := .pair 7 (.bool true) .nil
    let dotted : Value := .pair 8 (.bool true) (.symbol "a")
    let made := m.store.newList [.int 1, .nil] tail
    let refused := m.store.newList [.int 1, .nil] dotted
    tail.ProperList ∧
      Action.properList "list" made.1 { m with store := made.2 } =
        .ok [.int 1, .nil, .bool true] { m with store := made.2 } ∧
      ¬ dotted.ProperList ∧
      ∃ fault, Action.properList "cond" refused.1 { m with store := refused.2 } =
          .error fault { m with store := refused.2 } ∧
        fault.message = "cond: expected a proper list" := by
  intro m tail dotted made refused
  have htail : tail.ProperList := .pair 7 (.bool true) .nil
  have hdotted : ¬ dotted.ProperList := fun h => nomatch Value.properList_iff.1 h
  obtain ⟨hflat, -⟩ := flattening_undoes_making.1 "list" [.int 1, .nil] tail m
  obtain ⟨-, hrefuses⟩ := flattening_undoes_making.1 "cond" [.int 1, .nil] dotted m
  obtain ⟨rest, hrest, hmade⟩ := hflat htail
  obtain ⟨rfl, -⟩ : [.bool true] = rest ∧ m = m := EStateM.Result.ok.inj hrest
  obtain ⟨fault, hfails, -, hmessage⟩ := hrefuses hdotted
  exact ⟨htail, hmade, hdotted, fault, hfails, hmessage⟩

end Keel
