import Mathlib.Logic.Function.Basic
import Keel.Proofs.Identity.Basic
import Keel.Proofs.Initialisation.Store

/-! # The heap behind the identities

A pair carries its parts with it, so nothing in a value keeps two pairs with the
same identity from having different parts. A heap says which parts the pairs have
that were made so far. A store that is backed by a heap holds only values that
live in it, and making pairs only adds to it.
-/

namespace Keel

structure Heap where
  parts : Identity → Option (Value × Value)
  /-- The first identity that no pair has. -/
  next : Nat
  parts_eq_none : ∀ id : Nat, next ≤ id → parts id = none

namespace Heap

/-- Every pair in the value has the parts that the heap says. -/
def Holds (h : Heap) : Value → Prop
  | .pair id car cdr => h.parts id = some (car, cdr) ∧ h.Holds car ∧ h.Holds cdr
  | _ => True

def HoldsAll (h : Heap) (items : List Value) : Prop :=
  ∀ x ∈ items, h.Holds x

/-- Pairs may have been added; those that there were have the same parts. -/
structure Extends (h h' : Heap) : Prop where
  le : h.next ≤ h'.next
  parts : ∀ id : Nat, id < h.next → h'.parts id = h.parts id

def empty : Heap where
  parts _ := none
  next := 0
  parts_eq_none _ _ := rfl

def skipTo (h : Heap) (n : Nat) (hn : h.next ≤ n) : Heap where
  parts := h.parts
  next := n
  parts_eq_none id hid := h.parts_eq_none id (Nat.le_trans hn hid)

def fill (h : Heap) (id : Nat) (hid : id < h.next) (car cdr : Value) : Heap where
  parts := Function.update h.parts id (some (car, cdr))
  next := h.next
  parts_eq_none id' hid' := by
    have hne : id' ≠ id := by omega
    rw [Function.update_of_ne hne, h.parts_eq_none id' hid']

variable {h h' h'' : Heap} {n : Nat} {v car cdr : Value}

theorem Extends.refl (h : Heap) : h.Extends h :=
  ⟨Nat.le_refl _, fun _ _ => rfl⟩

theorem Extends.trans (hh : h.Extends h') (hh' : h'.Extends h'') : h.Extends h'' where
  le := Nat.le_trans hh.le hh'.le
  parts id hid := (hh'.parts id (Nat.lt_of_lt_of_le hid hh.le)).trans (hh.parts id hid)

theorem extends_skipTo (hn : h.next ≤ n) : h.Extends (h.skipTo n hn) :=
  ⟨hn, fun _ _ => rfl⟩

theorem lt_of_parts_eq_some {id : Nat} {parts : Value × Value} (hid : h.parts id = some parts) :
    id < h.next := by
  refine Nat.lt_of_not_le fun hle => ?_
  cases hid.symm.trans (h.parts_eq_none id hle)

theorem Holds.of_kept (hv : h.Holds v)
    (hkept : ∀ id parts, h.parts id = some parts → h'.parts id = some parts) : h'.Holds v := by
  induction v with
  | pair id car cdr ihcar ihcdr => exact ⟨hkept id _ hv.1, ihcar hv.2.1, ihcdr hv.2.2⟩
  | _ => trivial

theorem Holds.mono (hv : h.Holds v) (hh : h.Extends h') : h'.Holds v :=
  hv.of_kept fun id _ hid => (hh.parts id (lt_of_parts_eq_some hid)).trans hid

theorem HoldsAll.mono {items : List Value} (hitems : h.HoldsAll items) (hh : h.Extends h') :
    h'.HoldsAll items :=
  fun x hx => (hitems x hx).mono hh

theorem holds_of_not_isPair (hv : v.isPair = false) : h.Holds v := by
  cases v with
  | pair => simp [Value.isPair] at hv
  | _ => trivial

theorem Holds.items {items : List Value} (hv : h.Holds v) (hitems : v.toList? = some items) :
    h.HoldsAll items :=
  Value.forall_mem_of_toList? (fun hpair => hpair.2.1) (fun hpair => hpair.2.2) hv hitems

theorem Holds.of_part {x : Value} (hv : h.Holds v) (hx : x.Part v) : h.Holds x := by
  induction hx with
  | self => exact hv
  | car _ ih => exact ih hv.2.1
  | cdr _ ih => exact ih hv.2.2

/-- One identity denotes one structure. -/
theorem Holds.eq_of_identical {x y : Value} (hx : h.Holds x) (hy : h.Holds y)
    (hidentical : x.identical y = true) : x = y := by
  cases x with
  | pair i car cdr =>
    cases y with
    | pair j car' cdr' =>
      obtain rfl : i = j := by simpa [Value.identical] using hidentical
      cases hx.1.symm.trans hy.1
      rfl
    | _ => simp [Value.identical] at hidentical
  | _ => cases y <;> simp_all [Value.identical]

/-! ## Adding pairs -/

theorem extends_fill {id : Nat} (hid : id < h'.next) (hh : h.Extends h') (hnew : h.next ≤ id) :
    h.Extends (h'.fill id hid car cdr) where
  le := hh.le
  parts id' hid' := by
    have hne : id' ≠ id := by omega
    simp only [fill, Function.update_of_ne hne, hh.parts id' hid']

theorem Holds.fill {id : Nat} (hid : id < h.next) (hnone : h.parts id = none) (hv : h.Holds v) :
    (h.fill id hid car cdr).Holds v := by
  refine hv.of_kept fun id' parts hid' => ?_
  have hne : id' ≠ id := by
    rintro rfl
    cases hid'.symm.trans hnone
  simpa only [Heap.fill, Function.update_of_ne hne] using hid'

theorem holds_fill {id : Nat} (hid : id < h.next) (hnone : h.parts id = none) (hcar : h.Holds car)
    (hcdr : h.Holds cdr) : (h.fill id hid car cdr).Holds (.pair id car cdr) :=
  ⟨Function.update_self .., hcar.fill hid hnone, hcdr.fill hid hnone⟩

theorem exists_holds_listTo (h : Heap) {items : List Value} {tail : Value}
    (hitems : h.HoldsAll items) (htail : h.Holds tail) :
    ∃ h', h.Extends h' ∧ h'.next = h.next + items.length ∧
      h'.Holds (.listTo h.next items tail) := by
  induction items generalizing h with
  | nil => exact ⟨h, .refl h, rfl, htail⟩
  | cons x items ih =>
    obtain ⟨hx, hitems⟩ := List.forall_mem_cons.1 hitems
    have hskip := extends_skipTo (Nat.le_succ h.next)
    obtain ⟨h₁, hh₁, hnext, hrest⟩ := ih (h.skipTo (h.next + 1) (Nat.le_succ _))
      (HoldsAll.mono hitems hskip) (htail.mono hskip)
    have hlt : h.next < h₁.next := hh₁.le
    have hnone : h₁.parts h.next = none :=
      (hh₁.parts h.next (Nat.lt_succ_self _)).trans (h.parts_eq_none _ (Nat.le_refl _))
    refine ⟨_, extends_fill hlt (hskip.trans hh₁) (Nat.le_refl _), ?_,
      holds_fill hlt hnone (hx.mono (hskip.trans hh₁)) hrest⟩
    have : h₁.next = h.next + 1 + items.length := hnext
    simp only [fill, List.length_cons]
    omega

theorem exists_holds_ofDatum (h : Heap) (d : Datum) :
    ∃ h', h.Extends h' ∧ h'.next = (Value.ofDatum d h.next).2 ∧
      h'.Holds (Value.ofDatum d h.next).1 := by
  induction d generalizing h with
  | pair car cdr ihcar ihcdr =>
    have hskip := extends_skipTo (Nat.le_succ h.next)
    obtain ⟨h₁, hh₁, hnext₁, hcar⟩ := ihcar (h.skipTo (h.next + 1) (Nat.le_succ _))
    obtain ⟨h₂, hh₂, hnext₂, hcdr⟩ := ihcdr h₁
    have hh := hh₁.trans hh₂
    have hlt : h.next < h₂.next := hh.le
    have hnone : h₂.parts h.next = none :=
      (hh.parts h.next (Nat.lt_succ_self _)).trans (h.parts_eq_none _ (Nat.le_refl _))
    rw [hnext₁] at hnext₂ hcdr
    exact ⟨_, extends_fill hlt (hskip.trans hh) (Nat.le_refl _), hnext₂,
      holds_fill hlt hnone (hcar.mono hh₂) hcdr⟩
  | _ => exact ⟨h, .refl h, rfl, trivial⟩

end Heap

/-! ## Stores -/

/-- The heap holds whatever the store does, and knows which identities are new. -/
structure Store.Backed (h : Heap) (s : Store) : Prop where
  cell : ∀ {c : CellId} {v : Value}, s.cells[c]? = some v → h.Holds v
  formals : ∀ {id : ClosureId} {c : Closure}, s.closures[id]? = some c → h.HoldsAll c.formals
  body : ∀ {id : ClosureId} {c : Closure}, s.closures[id]? = some c → h.HoldsAll c.body
  next : s.nextId = h.next

namespace Store.Backed

variable {h h' : Heap} {s : Store} {v : Value}

theorem empty : Store.empty.Backed .empty where
  cell hv := by simp [Store.empty] at hv
  formals hc := by simp [Store.empty] at hc
  body hc := by simp [Store.empty] at hc
  next := rfl

theorem renumber {n : Nat} (hs : s.Backed h) (hh : h.Extends h') (hn : h'.next = n) :
    { s with nextId := n }.Backed h' where
  cell hv := (hs.cell hv).mono hh
  formals hc := (hs.formals hc).mono hh
  body hc := (hs.body hc).mono hh
  next := hn.symm

theorem of_lookup {f : FrameId} {name : String} (hs : s.Backed h)
    (hv : s.lookup f name = .ok v) : h.Holds v := by
  obtain ⟨c, -, rfl, hne⟩ := Store.lookup_eq_ok hv
  rcases Nat.lt_or_ge c s.cells.size with hlt | hge
  · exact hs.cell (Store.cell_eq hlt)
  · exact absurd (by simp [Store.cell, Array.getD, Nat.not_lt.2 hge]) hne

theorem newFrame (hs : s.Backed h) (outer : Option FrameId) : (s.newFrame outer).2.Backed h where
  cell := hs.cell
  formals := hs.formals
  body := hs.body
  next := hs.next

theorem setCell (hs : s.Backed h) (hv : h.Holds v) (c : CellId) : (s.setCell c v).Backed h where
  cell {c' w} hw := by
    simp only [Store.setCell, Array.getElem?_setIfInBounds] at hw
    split at hw
    · split at hw
      · exact Option.some.inj hw ▸ hv
      · cases hw
    · exact hs.cell hw
  formals := hs.formals
  body := hs.body
  next := hs.next

theorem bindNew (hs : s.Backed h) (hv : h.Holds v) (f : FrameId) (name : String) :
    (s.bindNew f name v).Backed h where
  cell {c w} hw := by
    simp only [Store.bindNew, Store.newCell, Array.getElem?_push] at hw
    split at hw
    · exact Option.some.inj hw ▸ hv
    · exact hs.cell hw
  formals := hs.formals
  body := hs.body
  next := hs.next

theorem define (hs : s.Backed h) (hv : h.Holds v) (f : FrameId) (name : String) :
    (s.define f name v).2.Backed h := by
  cases hc : s.ownCell? f name with
  | some c =>
    rw [Store.define_of_eq_some hc]
    exact hs.setCell hv c
  | none =>
    rw [Store.define_of_eq_none hc]
    exact hs.bindNew hv f name

theorem newClosure {c : Closure} (hs : s.Backed h) (hformals : h.HoldsAll c.formals)
    (hbody : h.HoldsAll c.body) : (s.newClosure c).2.Backed h where
  cell := hs.cell
  formals {id c'} hc' := by
    rcases Store.of_closures_newClosure hc' with rfl | hc'
    · exact hformals
    · exact hs.formals hc'
  body {id c'} hc' := by
    rcases Store.of_closures_newClosure hc' with rfl | hc'
    · exact hbody
    · exact hs.body hc'
  next := hs.next

theorem nameClosure (hs : s.Backed h) (v : Value) (name : String) :
    (s.nameClosure v name).Backed h where
  cell hw := hs.cell (by rwa [cells_nameClosure] at hw)
  formals {id c'} hc' := by
    obtain ⟨c, name', hc, rfl⟩ := Store.of_closures_nameClosure hc'
    have hformals : h.HoldsAll c.formals := hs.formals hc
    exact hformals
  body {id c'} hc' := by
    obtain ⟨c, name', hc, rfl⟩ := Store.of_closures_nameClosure hc'
    have hbody : h.HoldsAll c.body := hs.body hc
    exact hbody
  next := by
    have hnext : (s.nameClosure v name).nextId = s.nextId := by
      unfold Store.nameClosure
      split <;> rfl
    rw [hnext]
    exact hs.next

end Store.Backed

end Keel
