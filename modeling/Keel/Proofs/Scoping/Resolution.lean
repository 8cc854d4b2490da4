import Keel.Proofs.Effect.Store
import Keel.Proofs.Growth.Store
import Keel.Proofs.Initialisation.Store

/-! # Resolution of names

A name is resolved to the cell that the first frame on a chain binds it to. Writing a
cell changes no resolution, and it is seen wherever a name is resolved to the cell.
A new binding is found from those frames from which its frame is the first one that
binds the name.
-/

namespace Keel

namespace Frame

variable (frame : Frame) (name : String) (c : CellId)

def names : List String :=
  frame.bindings.map Prod.fst

theorem mem_names_iff : name ∈ frame.names ↔ (frame.cell? name).isSome := by
  cases hc : frame.cell? name with
  | some c => exact iff_of_true (List.mem_map_of_mem (mem_bindings_of_cell? hc)) rfl
  | none =>
    refine iff_of_false (fun hmem => ?_) nofun
    obtain ⟨b, hb, rfl⟩ := List.mem_map.1 hmem
    simpa using List.lookup_eq_none_iff.1 hc b hb

theorem names_bind :
    (frame.bind name c).names =
      if name ∈ frame.names then frame.names else frame.names ++ [name] := by
  simp only [mem_names_iff]
  unfold bind
  split
  · simp only [names, List.map_map]
    refine List.map_congr_left fun b _ => ?_
    rw [Function.comp_apply, apply_ite Prod.fst, ite_self]
  · simp [names]

end Frame

namespace Store

variable {s s' s'' : Store} {e f g : FrameId} {n x : String} {c d : CellId} {v : Value}

/-! ## Along the chain -/

theorem findCell?_eq_findSome? (s : Store) (f : FrameId) (name : String) :
    s.findCell? f name = (s.chain f).findSome? (s.ownCell? · name) := by
  fun_induction s.chain f with
  | case1 f g hlt hout ih =>
    rw [findCell?, List.findSome?_cons, hout]
    cases s.ownCell? f name with
    | some c => rfl
    | none => exact ih
  | case2 f hout =>
    rw [findCell?, List.findSome?_cons, hout]
    cases s.ownCell? f name with
    | some c => rfl
    | none => rfl

theorem findCell?_eq_none_iff :
    s.findCell? f n = none ↔ ∀ g ∈ s.chain f, s.ownCell? g n = none := by
  rw [findCell?_eq_findSome?, List.findSome?_eq_none_iff]

theorem Binds.of_findCell? (h : s.findCell? f n = some c) : ∃ g, s.Binds g c := by
  rw [findCell?_eq_findSome?] at h
  obtain ⟨g, -, hown⟩ := List.exists_of_findSome?_eq_some h
  exact ⟨g, .of_ownCell? hown⟩

theorem chain_congr (h : ∀ g, s'.outer? g = s.outer? g) (f : FrameId) : s'.chain f = s.chain f := by
  fun_induction s.chain f with
  | case1 f g hlt hout ih =>
    rw [chain, h, hout]
    exact congrArg (f :: ·) ih
  | case2 f hout => rw [chain, h, hout]

/-- The first frame on the chain that binds the name. -/
def binder? (s : Store) (f : FrameId) (name : String) : Option FrameId :=
  (s.chain f).find? fun g => (s.ownCell? g name).isSome

/-- Where one frame binds a name anew, the first one that binds it is that frame, or it is found as
before. -/
theorem findSome?_rebound {own own' : FrameId → Option CellId}
    (h : ∀ g, own' g = if g = e then some c else own g) (frames : List FrameId) :
    frames.findSome? own' =
      if frames.find? (fun g => (own' g).isSome) = some e then some c
      else frames.findSome? own := by
  induction frames with
  | nil => rfl
  | cons g frames ih =>
    rw [List.findSome?_cons, List.find?_cons, List.findSome?_cons]
    by_cases hg : g = e
    · simp [h, hg]
    · cases hown : own g with
      | some d => simp [h, hg, hown]
      | none => simp [h, hg, hown, ih]

/-! ## Writing a cell -/

/-- Nothing but the value of the cell has changed, as far as names are concerned. So the new value
is found under those names that are resolved to the cell, and under no other. -/
structure WritesInto (c : CellId) (v : Value) (s s' : Store) : Prop where
  findCell? : ∀ g x, s'.findCell? g x = s.findCell? g x
  cell : ∀ d, s'.cell d = if d = c then v else s.cell d
  seen : ∀ g x, v ≠ .absent → s.findCell? g x = some c → s'.lookup g x = .ok v
  unseen : ∀ g x, s.findCell? g x ≠ some c → s'.lookup g x = s.lookup g x

theorem cell_setCell (hc : c < s.cells.size) (v : Value) (d : CellId) :
    (s.setCell c v).cell d = if d = c then v else s.cell d := by
  simp only [cell, setCell, Array.getD_eq_getD_getElem?, Array.getElem?_setIfInBounds]
  by_cases hd : d = c
  · simp [hd, hc]
  · simp [hd, Ne.symm hd]

theorem writesInto_setCell (hc : c < s.cells.size) (v : Value) :
    WritesInto c v s (s.setCell c v) := by
  have hfind : ∀ g x, (s.setCell c v).findCell? g x = s.findCell? g x := findCell?_congr rfl
  refine ⟨hfind, cell_setCell hc v, ?_, ?_⟩
  · intro g x hv hx
    rw [lookup, hfind, hx]
    simp only [cell_setCell hc, if_true]
  · intro g x hx
    rw [lookup, lookup, hfind]
    cases hd : s.findCell? g x with
    | none => rfl
    | some d =>
      have hne : d ≠ c := fun h => hx (h ▸ hd)
      simp only [cell_setCell hc, if_neg hne]

/-! ## Binding a new cell -/

/-- The name is bound in the frame to a new cell with the value. The cell is found under the name
from the frames from which the frame is the first one that binds the name; otherwise names are
resolved as before. -/
structure BindsAnew (e : FrameId) (n : String) (c : CellId) (v : Value) (s s' : Store) : Prop where
  fresh : ∀ g x, s.findCell? g x ≠ some c
  found : ∀ g x, s'.findCell? g x = some c ↔ x = n ∧ s'.binder? g n = some e
  kept : ∀ g x, ¬ (x = n ∧ s'.binder? g n = some e) → s'.findCell? g x = s.findCell? g x
  cell : ∀ d, s'.cell d = if d = c then v else s.cell d

section BindNew

variable (he : e < s.frames.size)

theorem outer?_bindNew (s : Store) (e : FrameId) (n : String) (v : Value) (g : FrameId) :
    (s.bindNew e n v).outer? g = s.outer? g := by
  have houter : ((s.bindNew e n v).frames[g]?).bind (·.outer) = (s.frames[g]?).bind (·.outer) := by
    rw [bindNew, getElem?_bind]
    split
    · cases s.frames[g]? <;> simp
    · rfl
  rw [outer?, outer?, houter]

theorem cell_bindNew (s : Store) (e : FrameId) (n : String) (v : Value) (d : CellId) :
    (s.bindNew e n v).cell d = if d = s.cells.size then v else s.cell d := by
  simp only [cell, bindNew, newCell, Array.getD_eq_getD_getElem?, Array.getElem?_push]
  split <;> rfl

include he

theorem findCell?_bindNew (n : String) (v : Value) (g : FrameId) (x : String) :
    (s.bindNew e n v).findCell? g x =
      if x = n ∧ (s.bindNew e n v).binder? g n = some e then some s.cells.size
      else s.findCell? g x := by
  -- The chain is the same in both stores, and the frames on it differ in what `e` binds `n` to.
  have hchain := chain_congr (s.outer?_bindNew e n v) g
  rw [findCell?_eq_findSome?, findCell?_eq_findSome?, binder?, hchain]
  by_cases hx : x = n
  · subst hx
    simpa using findSome?_rebound (fun g => by simp [ownCell?_bindNew he]) (s.chain g)
  · simp [hx, ownCell?_bindNew he]

theorem lookup_bindNew (n : String) (hv : v ≠ .absent) : (s.bindNew e n v).lookup e n = .ok v := by
  refine lookup_of_findCell? (c := s.cells.size) (findCell?_of_ownCell? ?_) ?_ hv
  · rw [ownCell?_bindNew he, if_pos ⟨rfl, rfl⟩]
  · rw [cell_bindNew, if_pos rfl]

theorem lookup_bindNew_of_ne {w : Value} (v : Value) (hx : x ≠ n) (h : s.lookup g x = .ok w) :
    (s.bindNew e n v).lookup g x = .ok w := by
  obtain ⟨c, hc, rfl, hw⟩ := lookup_eq_ok h
  have hne : c ≠ s.cells.size := by
    rintro rfl
    exact hw (by simp [cell])
  refine lookup_of_findCell? (c := c) ?_ ?_ hw
  · rw [findCell?_bindNew he, if_neg fun hn => hx hn.1, hc]
  · rw [cell_bindNew, if_neg hne]

theorem bindsAnew_bindNew (hbound : ∀ g c, s.Binds g c → c < s.cells.size) (n : String)
    (v : Value) : BindsAnew e n s.cells.size v s (s.bindNew e n v) := by
  have hfresh : ∀ g x, s.findCell? g x ≠ some s.cells.size := by
    intro g x h
    obtain ⟨g, hg⟩ := Binds.of_findCell? h
    exact Nat.lt_irrefl _ (hbound g _ hg)
  refine ⟨hfresh, ?_, ?_, s.cell_bindNew e n v⟩
  · intro g x
    rw [findCell?_bindNew he]
    split
    · next h => exact iff_of_true rfl h
    · next h => exact iff_of_false (hfresh g x) h
  · intro g x h
    rw [findCell?_bindNew he, if_neg h]

end BindNew

/-! ## The names of a frame -/

def names (s : Store) (f : FrameId) : List String :=
  ((s.frames[f]?).map Frame.names).getD []

/-- In every frame the names stay in their places, and they stay unique. -/
structure KeepsNames (s s' : Store) : Prop where
  order : ∀ f, s.names f <+: s'.names f
  nodup : ∀ f, (s.names f).Nodup → (s'.names f).Nodup

namespace KeepsNames

theorem of_frames (h : s'.frames = s.frames) : s.KeepsNames s' := by
  have hnames : ∀ f, s'.names f = s.names f := fun f => by rw [names, names, h]
  exact ⟨fun f => hnames f ▸ List.prefix_refl _, fun f => hnames f ▸ id⟩

theorem trans (h : s.KeepsNames s') (h' : s'.KeepsNames s'') : s.KeepsNames s'' :=
  ⟨fun f => (h.order f).trans (h'.order f), fun f => h'.nodup f ∘ h.nodup f⟩

theorem bindNew (s : Store) (e : FrameId) (n : String) (v : Value) :
    s.KeepsNames (s.bindNew e n v) := by
  have hnames : ∀ f, (s.bindNew e n v).names f = s.names f ∨
      n ∉ s.names f ∧ (s.bindNew e n v).names f = s.names f ++ [n] := by
    intro f
    rw [names, names, Store.bindNew, getElem?_bind]
    split
    · cases s.frames[f]? with
      | none => exact .inl rfl
      | some frame =>
        by_cases hn : n ∈ frame.names
        · exact .inl (by simp [Frame.names_bind, hn])
        · exact .inr (by simp [Frame.names_bind, hn])
    · exact .inl rfl
  constructor
  · intro f
    rcases hnames f with h | ⟨-, h⟩
    · exact h ▸ List.prefix_refl _
    · exact h ▸ List.prefix_append _ _
  · intro f hf
    rcases hnames f with h | ⟨hn, h⟩
    · rwa [h]
    · rw [h]
      refine List.nodup_append.2 ⟨hf, by simp, ?_⟩
      rintro a ha b hb rfl
      exact hn (List.mem_singleton.1 hb ▸ ha)

theorem define (s : Store) (e : FrameId) (n : String) (v : Value) :
    s.KeepsNames (s.define e n v).2 := by
  cases hown : s.ownCell? e n with
  | some c =>
    rw [define_of_eq_some hown]
    exact .of_frames rfl
  | none =>
    rw [define_of_eq_none hown]
    exact .bindNew s e n v

end KeepsNames

end Store

end Keel
