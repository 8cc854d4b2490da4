import Keel.Proofs.Initialisation.Store

/-! # Changing one frame only

A frame is reached through its bindings, and a cell through the frames that bind
it. No two frames of a session bind the same cell. So what is written to the
cells of one frame, and to cells that are new, is not seen through any other
frame that existed before.
-/

namespace Keel.Store

variable {s s' : Store} {f g : FrameId} {name : String} {c d : CellId} {v : Value}

def Binds (s : Store) (f : FrameId) (c : CellId) : Prop :=
  ∃ frame name, s.frames[f]? = some frame ∧ (name, c) ∈ frame.bindings

namespace Binds

theorem of_ownCell? (h : s.ownCell? f name = some c) : s.Binds f c := by
  obtain ⟨frame, hframe, hc⟩ := Option.bind_eq_some_iff.1 h
  exact ⟨frame, name, hframe, Frame.mem_bindings_of_cell? hc⟩

theorem lt_size (h : s.Binds f c) : f < s.frames.size := by
  obtain ⟨frame, _, hframe, -⟩ := h
  exact (Array.getElem?_eq_some_iff.1 hframe).1

theorem of_newFrame {outer : Option FrameId} (h : (s.newFrame outer).2.Binds f c) :
    s.Binds f c := by
  obtain ⟨frame, name, hframe, hmem⟩ := h
  rcases of_frames_newFrame hframe with ⟨-, rfl⟩ | hold
  · exact nomatch hmem
  · exact ⟨frame, name, hold, hmem⟩

/-- Only the frame itself, and only the cell itself, is bound anew. -/
theorem of_bind (h : Binds { s with frames := s.frames.modify f (·.bind name c) } g d) :
    s.Binds g d ∨ (g = f ∧ d = c) := by
  obtain ⟨frame', name', hframe', hmem⟩ := h
  obtain ⟨frame, hframe, rfl | ⟨hg, rfl⟩⟩ := of_frames_bind hframe'
  · exact .inl ⟨_, name', hframe, hmem⟩
  · rcases Frame.mem_bindings_bind hmem with hd | hold
    · exact .inr ⟨hg, congrArg Prod.snd hd⟩
    · exact .inl ⟨frame, name', hframe, hold⟩

end Binds

/-! ## Separate frames -/

structure Separate (s : Store) : Prop where
  bound : ∀ {f c}, s.Binds f c → c < s.cells.size
  alone : ∀ {f g c}, s.Binds f c → s.Binds g c → f = g

namespace Separate

theorem empty : Store.empty.Separate where
  bound := by
    rintro f c ⟨frame, name, hframe, -⟩
    simp [Store.empty] at hframe
  alone := by
    rintro f g c ⟨frame, name, hframe, -⟩
    simp [Store.empty] at hframe

/-- A store with the same bindings, or with those of new cells in one frame. -/
theorem of_binds (h : s.Separate) (hle : s.cells.size ≤ s'.cells.size)
    (hbinds : ∀ {g d}, s'.Binds g d →
      s.Binds g d ∨ (g = f ∧ d = s.cells.size ∧ s.cells.size < s'.cells.size)) :
    s'.Separate where
  bound hb := by
    rcases hbinds hb with hold | ⟨-, rfl, hlt⟩
    · exact Nat.lt_of_lt_of_le (h.bound hold) hle
    · exact hlt
  alone hb hb' := by
    rcases hbinds hb with hold | ⟨rfl, hd, -⟩
    · rcases hbinds hb' with hold' | ⟨-, rfl, -⟩
      · exact h.alone hold hold'
      · exact absurd (h.bound hold) (Nat.lt_irrefl _)
    · rcases hbinds hb' with hold' | ⟨rfl, -, -⟩
      · subst hd
        exact absurd (h.bound hold') (Nat.lt_irrefl _)
      · rfl

theorem of_eq (h : s.Separate) (hf : s'.frames = s.frames) (hle : s.cells.size ≤ s'.cells.size) :
    s'.Separate :=
  h.of_binds (f := 0) hle fun ⟨frame, name, hframe, hmem⟩ => .inl ⟨frame, name, hf ▸ hframe, hmem⟩

theorem newFrame (h : s.Separate) (outer : Option FrameId) : (s.newFrame outer).2.Separate :=
  h.of_binds (f := 0) (Nat.le_refl _) fun hb => .inl hb.of_newFrame

theorem declare (h : s.Separate) (f : FrameId) (name : String) :
    (s.declare f name).2.Separate := by
  have hsize : (s.declare f name).2.cells.size = s.cells.size + 1 := by
    simp [Store.declare, newCell]
  refine h.of_binds (f := f) (by omega) fun hb => ?_
  have hnew := Binds.of_bind (s := (s.newCell .absent).2) hb
  exact hnew.imp_right fun h => ⟨h.1, h.2, by omega⟩

theorem define (h : s.Separate) (f : FrameId) (name : String) (v : Value) :
    (s.define f name v).2.Separate := by
  unfold Store.define
  split
  · exact h.of_eq rfl (by simp [setCell])
  · refine h.of_binds (f := f) (by simp [newCell]) fun hb => ?_
    have hnew := Binds.of_bind (s := (s.newCell v).2) hb
    exact hnew.imp_right fun h => ⟨h.1, h.2, by simp [newCell]⟩

end Separate

/-! ## Changes -/

section Changes

variable (s₀ : Store) (home : Option FrameId)

/-- Names may be bound in the frame: it is the one in question, or it is new. -/
def Open (f : FrameId) : Prop :=
  home = some f ∨ s₀.frames.size ≤ f

/-- The cell may be written: a frame in which names may be bound has it, or it is new. -/
def Writable (c : CellId) : Prop :=
  (∃ f, home = some f ∧ s₀.Binds f c) ∨ s₀.cells.size ≤ c

/-- All that existed in `s₀` is in `s` as it was, but for the frame in question and its cells. -/
structure ChangesOnly (s : Store) : Prop where
  frames : ∀ {g}, ¬ s₀.Open home g → s.frames[g]? = s₀.frames[g]?
  cells : ∀ {c}, ¬ s₀.Writable home c → s.cells[c]? = s₀.cells[c]?
  frames_le : s₀.frames.size ≤ s.frames.size
  cells_le : s₀.cells.size ≤ s.cells.size
  bound : ∀ {f c}, s.Binds f c → s₀.Open home f → s₀.Writable home c

end Changes

namespace ChangesOnly

variable {s₀ : Store} {home : Option FrameId}

theorem refl (s₀ : Store) (home : Option FrameId) : s₀.ChangesOnly home s₀ where
  frames _ := rfl
  cells _ := rfl
  frames_le := Nat.le_refl _
  cells_le := Nat.le_refl _
  bound hb hopen := by
    rcases hopen with hhome | hnew
    · exact .inl ⟨_, hhome, hb⟩
    · exact absurd hb.lt_size (Nat.not_lt.2 hnew)

variable (h : s₀.ChangesOnly home s)
include h

theorem of_eq (hf : s'.frames = s.frames) (hc : s'.cells = s.cells) :
    s₀.ChangesOnly home s' where
  frames hg := by
    rw [hf]
    exact h.frames hg
  cells hn := by
    rw [hc]
    exact h.cells hn
  frames_le := by
    rw [hf]
    exact h.frames_le
  cells_le := by
    rw [hc]
    exact h.cells_le
  bound := by
    rintro f c ⟨frame, name, hframe, hmem⟩
    exact h.bound ⟨frame, name, hf ▸ hframe, hmem⟩

theorem newFrame (outer : Option FrameId) : s₀.ChangesOnly home (s.newFrame outer).2 where
  frames {g} hg := by
    have hlt : g < s₀.frames.size := Nat.lt_of_not_le fun hle => hg (.inr hle)
    have hne : g ≠ s.frames.size := Nat.ne_of_lt (Nat.lt_of_lt_of_le hlt h.frames_le)
    simpa only [Store.newFrame, Array.getElem?_push, if_neg hne] using h.frames hg
  cells := h.cells
  frames_le := by
    simp only [Store.newFrame, Array.size_push]
    exact Nat.le_succ_of_le h.frames_le
  cells_le := h.cells_le
  bound hb := h.bound hb.of_newFrame

theorem setCell (hc : s₀.Writable home c) (v : Value) :
    s₀.ChangesOnly home (s.setCell c v) where
  frames := h.frames
  cells {d} hd := by
    have hne : c ≠ d := by
      rintro rfl
      exact hd hc
    simpa only [Store.setCell, Array.getElem?_setIfInBounds_ne hne] using h.cells hd
  frames_le := h.frames_le
  cells_le := by
    simp only [Store.setCell, Array.size_setIfInBounds]
    exact h.cells_le
  bound := h.bound

theorem newCell (v : Value) : s₀.ChangesOnly home (s.newCell v).2 where
  frames := h.frames
  cells {d} hd := by
    have hlt : d < s₀.cells.size := Nat.lt_of_not_le fun hle => hd (.inr hle)
    have hne : d ≠ s.cells.size := Nat.ne_of_lt (Nat.lt_of_lt_of_le hlt h.cells_le)
    simpa only [Store.newCell, Array.getElem?_push, if_neg hne] using h.cells hd
  frames_le := h.frames_le
  cells_le := by
    simp only [Store.newCell, Array.size_push]
    exact Nat.le_succ_of_le h.cells_le
  bound := h.bound

theorem bind (hf : s₀.Open home f) (hc : s₀.Writable home c) (name : String) :
    s₀.ChangesOnly home { s with frames := s.frames.modify f (·.bind name c) } where
  frames {g} hg := by
    have hne : f ≠ g := by
      rintro rfl
      exact hg hf
    simpa only [Array.getElem?_modify, if_neg hne] using h.frames hg
  cells := h.cells
  frames_le := by
    simp only [Array.size_modify]
    exact h.frames_le
  cells_le := h.cells_le
  bound hb hopen := by
    rcases hb.of_bind with hold | ⟨-, rfl⟩
    · exact h.bound hold hopen
    · exact hc

theorem declare (hf : s₀.Open home f) (name : String) :
    s₀.ChangesOnly home (s.declare f name).2 :=
  (h.newCell .absent).bind hf (.inr h.cells_le) name

theorem define (hf : s₀.Open home f) (name : String) (v : Value) :
    s₀.ChangesOnly home (s.define f name v).2 := by
  unfold Store.define
  split
  · next c hc => exact h.setCell (h.bound (.of_ownCell? hc) hf) v
  · exact (h.newCell v).bind hf (.inr h.cells_le) name

end ChangesOnly

end Keel.Store
