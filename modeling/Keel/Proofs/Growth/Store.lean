import Keel.Store.Binding

/-! # Growth of the store

Everything that evaluation does to the store extends it: frames get new bindings
behind the old ones, closures get names, and new things come after the old ones.
`declare` can move a name to another cell, so it extends only a store in which
its frame does not exist yet.
-/

namespace Keel

structure Frame.GrowsInto (frame frame' : Frame) : Prop where
  outer : frame'.outer = frame.outer
  bindings : frame.bindings <+: frame'.bindings

structure Closure.GrowsInto (c c' : Closure) : Prop where
  formals : c'.formals = c.formals
  body : c'.body = c.body
  frame : c'.frame = c.frame
  name : c'.name = c.name ∨ c.name = none

theorem Frame.GrowsInto.refl (frame : Frame) : frame.GrowsInto frame :=
  ⟨rfl, List.prefix_refl _⟩

theorem Frame.GrowsInto.trans {a b c : Frame} (h : a.GrowsInto b) (h' : b.GrowsInto c) :
    a.GrowsInto c :=
  ⟨h'.outer.trans h.outer, h.bindings.trans h'.bindings⟩

theorem Closure.GrowsInto.refl (c : Closure) : c.GrowsInto c :=
  ⟨rfl, rfl, rfl, .inl rfl⟩

theorem Closure.GrowsInto.trans {a b c : Closure} (h : a.GrowsInto b) (h' : b.GrowsInto c) :
    a.GrowsInto c := by
  refine ⟨h'.formals.trans h.formals, h'.body.trans h.body, h'.frame.trans h.frame, ?_⟩
  rcases h.name with hab | ha
  · rcases h'.name with hbc | hb
    · exact .inl (hbc.trans hab)
    · exact .inr (hab.symm.trans hb)
  · exact .inr ha

theorem Frame.growsInto_bind {frame : Frame} {name : String} (h : frame.cell? name = none)
    (c : CellId) : frame.GrowsInto (frame.bind name c) := by
  simp only [Frame.bind, h, Option.isSome_none, Bool.false_eq_true, if_false]
  exact ⟨rfl, List.prefix_append _ _⟩

@[simp] theorem Frame.outer_bind (frame : Frame) (name : String) (c : CellId) :
    (frame.bind name c).outer = frame.outer := by
  unfold Frame.bind
  split <;> rfl

theorem Frame.lookup_map_rebound (name : String) (c : CellId) (bindings : List (String × CellId))
    (x : String) :
    (bindings.map fun (k, d) => if k = name then (k, c) else (k, d)).lookup x =
      (bindings.lookup x).map fun d => if x = name then c else d := by
  induction bindings with
  | nil => rfl
  | cons b bindings ih =>
    obtain ⟨k, d⟩ := b
    have hhead : (if k = name then (k, c) else (k, d)) = (k, if k = name then c else d) := by
      split <;> rfl
    simp only [List.map_cons, List.lookup_cons, hhead, ih]
    by_cases hx : x = k
    · simp [hx]
    · simp [beq_false_of_ne hx]

theorem Frame.cell?_bind (frame : Frame) (name : String) (c : CellId) (x : String) :
    (frame.bind name c).cell? x = if x = name then some c else frame.cell? x := by
  unfold Frame.bind
  split
  · next h =>
    rw [cell?, lookup_map_rebound]
    by_cases hx : x = name
    · subst hx
      obtain ⟨d, hd⟩ := Option.isSome_iff_exists.1 h
      rw [if_pos rfl, show frame.bindings.lookup x = some d from hd]
      simp
    · simp [hx, cell?]
  · next h =>
    have hnone : frame.bindings.lookup name = none := Option.not_isSome_iff_eq_none.1 h
    rw [cell?, List.lookup_append]
    by_cases hx : x = name
    · subst hx
      simp [hnone]
    · simp [hx, cell?, List.lookup_cons, beq_false_of_ne hx]

namespace Store

variable {s s' s'' : Store} {f g r : FrameId} {name : String} {c : CellId}

/-- The frame around a frame is older than it, and closures belong to existing frames. -/
structure WellFormed (s : Store) : Prop where
  outer_lt : ∀ {f g : FrameId} {frame : Frame}, s.frames[f]? = some frame →
    frame.outer = some g → g < f
  frame_lt : ∀ {id : ClosureId} {c : Closure}, s.closures[id]? = some c →
    c.frame < s.frames.size

/-- What is there remains there and at most grows; no new frame is outermost. -/
structure GrowsInto (s s' : Store) : Prop where
  frames : ∀ {f : FrameId} {frame : Frame}, s.frames[f]? = some frame →
    ∃ frame', s'.frames[f]? = some frame' ∧ frame.GrowsInto frame'
  inner : ∀ {f : FrameId} {frame : Frame}, s'.frames[f]? = some frame → s.frames.size ≤ f →
    frame.outer.isSome
  closures : ∀ {id : ClosureId} {c : Closure}, s.closures[id]? = some c →
    ∃ c', s'.closures[id]? = some c' ∧ c.GrowsInto c'
  cells : s.cells.size ≤ s'.cells.size

theorem GrowsInto.refl (s : Store) : s.GrowsInto s where
  frames h := ⟨_, h, .refl _⟩
  inner h hf := by
    obtain ⟨hlt, -⟩ := Array.getElem?_eq_some_iff.1 h
    omega
  closures h := ⟨_, h, .refl _⟩
  cells := Nat.le_refl _

theorem GrowsInto.size_le (h : s.GrowsInto s') : s.frames.size ≤ s'.frames.size := by
  rcases Nat.eq_zero_or_pos s.frames.size with hz | hp
  · omega
  · have hlast : s.frames.size - 1 < s.frames.size := by omega
    obtain ⟨frame', hframe, -⟩ := h.frames (Array.getElem?_eq_getElem hlast)
    obtain ⟨hlt, -⟩ := Array.getElem?_eq_some_iff.1 hframe
    omega

theorem GrowsInto.trans (h : s.GrowsInto s') (h' : s'.GrowsInto s'') : s.GrowsInto s'' where
  frames hf := by
    obtain ⟨frame', hf', hg⟩ := h.frames hf
    obtain ⟨frame'', hf'', hg'⟩ := h'.frames hf'
    exact ⟨frame'', hf'', hg.trans hg'⟩
  inner {f frame''} hf'' hle := by
    rcases Nat.lt_or_ge f s'.frames.size with hlt | hge
    · have hf' := Array.getElem?_eq_getElem hlt
      obtain ⟨frame, hf, hg⟩ := h'.frames hf'
      obtain rfl : frame = frame'' := Option.some.inj (hf.symm.trans hf'')
      rw [hg.outer]
      exact h.inner hf' hle
    · exact h'.inner hf'' hge
  closures hc := by
    obtain ⟨c', hc', hg⟩ := h.closures hc
    obtain ⟨c'', hc'', hg'⟩ := h'.closures hc'
    exact ⟨c'', hc'', hg.trans hg'⟩
  cells := Nat.le_trans h.cells h'.cells

/-! ## Operations -/

theorem GrowsInto.of_eq (hf : s'.frames = s.frames) (hc : s'.closures = s.closures)
    (h : s.cells.size ≤ s'.cells.size) : s.GrowsInto s' where
  frames h := ⟨_, hf ▸ h, .refl _⟩
  inner h hle := (GrowsInto.refl s).inner (hf ▸ h) hle
  closures h := ⟨_, hc ▸ h, .refl _⟩
  cells := h

theorem growsInto_setCell (s : Store) (c : CellId) (v : Value) : s.GrowsInto (s.setCell c v) :=
  .of_eq rfl rfl (by simp [setCell])

theorem growsInto_newCell (s : Store) (v : Value) : s.GrowsInto (s.newCell v).2 :=
  .of_eq rfl rfl (by simp [newCell])

theorem growsInto_newFrame (s : Store) (f : FrameId) : s.GrowsInto (s.newFrame (some f)).2 where
  frames {g frame} h := by
    obtain ⟨hlt, -⟩ := Array.getElem?_eq_some_iff.1 h
    refine ⟨frame, ?_, .refl _⟩
    simpa only [newFrame, Array.getElem?_push, Nat.ne_of_lt hlt, if_false] using h
  inner {g frame} h hle := by
    rcases of_frames_newFrame h with ⟨-, rfl⟩ | hold
    · rfl
    · exact (GrowsInto.refl s).inner hold hle
  closures h := ⟨_, h, .refl _⟩
  cells := Nat.le_refl _

theorem growsInto_newClosure (s : Store) (c : Closure) : s.GrowsInto (s.newClosure c).2 where
  frames h := ⟨_, h, .refl _⟩
  inner h hle := (GrowsInto.refl s).inner h hle
  closures {id c'} h := by
    obtain ⟨hlt, -⟩ := Array.getElem?_eq_some_iff.1 h
    refine ⟨c', ?_, .refl _⟩
    simpa only [newClosure, Array.getElem?_push, Nat.ne_of_lt hlt, if_false] using h
  cells := Nat.le_refl _

theorem growsInto_nameClosure (s : Store) (v : Value) (name : String) :
    s.GrowsInto (s.nameClosure v name) := by
  unfold nameClosure
  split
  · next id =>
    refine ⟨fun h => ⟨_, h, .refl _⟩, (GrowsInto.refl s).inner, fun {id' c} h => ?_, Nat.le_refl _⟩
    by_cases hid : id = id'
    · refine ⟨{ c with name := c.name.or (some name) }, ?_, rfl, rfl, rfl, ?_⟩
      · simp [Array.getElem?_modify, hid, h]
      · cases hn : c.name with
        | none => exact .inr rfl
        | some n => exact .inl rfl
    · exact ⟨c, by simpa [Array.getElem?_modify, hid] using h, .refl _⟩
  · exact .refl s

theorem getElem?_bind (s : Store) (f : FrameId) (name : String) (c : CellId) (g : FrameId) :
    (s.frames.modify f (·.bind name c))[g]? =
      if f = g then s.frames[g]?.map (·.bind name c) else s.frames[g]? :=
  Array.getElem?_modify

theorem ownCell?_bindNew (hf : f < s.frames.size) (name : String) (v : Value) (g : FrameId)
    (x : String) :
    (s.bindNew f name v).ownCell? g x =
      if g = f ∧ x = name then some s.cells.size else s.ownCell? g x := by
  rw [ownCell?, ownCell?, bindNew, getElem?_bind]
  by_cases hg : g = f
  · subst hg
    simp [Array.getElem?_eq_getElem hf, Frame.cell?_bind]
  · simp [hg, Ne.symm hg]

theorem outer_of_getElem?_bind {frame' : Frame}
    (h : (s.frames.modify f (·.bind name c))[g]? = some frame') :
    ∃ frame, s.frames[g]? = some frame ∧ frame'.outer = frame.outer := by
  obtain ⟨frame, hframe, rfl | ⟨-, rfl⟩⟩ := of_frames_bind h
  · exact ⟨_, hframe, rfl⟩
  · exact ⟨frame, hframe, Frame.outer_bind ..⟩

theorem growsInto_define (s : Store) (f : FrameId) (name : String) (v : Value) :
    s.GrowsInto (s.define f name v).2 := by
  unfold define
  split
  · exact growsInto_setCell ..
  · next hown =>
    refine (growsInto_newCell s v).trans ⟨fun {g frame} h => ?_, fun h hle => ?_,
      fun h => ⟨_, h, .refl _⟩, Nat.le_refl _⟩
    · rw [getElem?_bind]
      split
      · next heq =>
        subst heq
        have hnone : frame.cell? name = none := by
          have hframe : s.frames[f]? = some frame := h
          simpa only [ownCell?, hframe, Option.bind_some] using hown
        exact ⟨_, by rw [h]; rfl, Frame.growsInto_bind hnone _⟩
      · exact ⟨frame, h, .refl _⟩
    · obtain ⟨frame, hframe, ho⟩ := outer_of_getElem?_bind h
      rw [ho]
      exact (GrowsInto.refl _).inner hframe (by simpa using hle)

/-- Nobody who knew the store before `f` was made sees what is declared in `f`. -/
theorem GrowsInto.declare (h : s.GrowsInto s') (hf : s.frames.size ≤ f) (name : String) :
    s.GrowsInto (s'.declare f name).2 where
  frames {g frame} hg := by
    obtain ⟨hlt, -⟩ := Array.getElem?_eq_some_iff.1 hg
    obtain ⟨frame', hg', hgrows⟩ := h.frames hg
    refine ⟨frame', ?_, hgrows⟩
    have hne : f ≠ g := Nat.ne_of_gt (Nat.lt_of_lt_of_le hlt hf)
    simpa only [Store.declare, newCell, Array.getElem?_modify, if_neg hne] using hg'
  inner hg hle := by
    obtain ⟨frame, hframe, ho⟩ := outer_of_getElem?_bind (s := (s'.newCell .absent).2) hg
    rw [ho]
    exact h.inner hframe hle
  closures := h.closures
  cells := by
    have := h.cells
    simp only [Store.declare, newCell, Array.size_push]
    omega

/-! ## Well-formedness -/

instance (s : Store) : Decidable s.WellFormed :=
  decidable_of_iff
    ((∀ f : Fin s.frames.size, s.frames[f].outer.all (· < f.val) = true) ∧
      ∀ id : Fin s.closures.size, s.closures[id].frame < s.frames.size) <| by
    constructor
    · rintro ⟨ho, hc⟩
      constructor
      · intro f g frame h hg
        obtain ⟨hlt, rfl⟩ := Array.getElem?_eq_some_iff.1 h
        simpa [hg] using ho ⟨f, hlt⟩
      · intro id c h
        obtain ⟨hlt, rfl⟩ := Array.getElem?_eq_some_iff.1 h
        exact hc ⟨id, hlt⟩
    · intro h
      constructor
      · intro f
        cases hg : s.frames[f].outer with
        | none => rfl
        | some g => simpa using h.outer_lt (Array.getElem?_eq_getElem f.isLt) hg
      · exact fun id => h.frame_lt (Array.getElem?_eq_getElem id.isLt)

/-- New links and new closures are all that can make a store ill-formed. -/
theorem WellFormed.of_links (hs : s.WellFormed) (hsize : s.frames.size ≤ s'.frames.size)
    (hf : ∀ {g : FrameId} {frame' : Frame}, s'.frames[g]? = some frame' →
      ∃ frame, s.frames[g]? = some frame ∧ frame'.outer = frame.outer)
    (hc : ∀ {id : ClosureId} {c' : Closure}, s'.closures[id]? = some c' →
      ∃ c, s.closures[id]? = some c ∧ c'.frame = c.frame) : s'.WellFormed where
  outer_lt h ho := by
    obtain ⟨frame, hframe, heq⟩ := hf h
    exact hs.outer_lt hframe (heq ▸ ho)
  frame_lt h := by
    obtain ⟨c, hcl, heq⟩ := hc h
    rw [heq]
    exact Nat.lt_of_lt_of_le (hs.frame_lt hcl) hsize

theorem WellFormed.of_eq (hs : s.WellFormed) (hf : s'.frames = s.frames)
    (hc : s'.closures = s.closures) : s'.WellFormed :=
  hs.of_links (Nat.le_of_eq (by rw [hf])) (fun h => ⟨_, hf ▸ h, rfl⟩)
    fun h => ⟨_, hc ▸ h, rfl⟩

theorem wellFormed_empty : empty.WellFormed where
  outer_lt h := by simp [empty] at h
  frame_lt h := by simp [empty] at h

theorem WellFormed.newFrame {outer : Option FrameId} (hs : s.WellFormed)
    (hf : ∀ f, outer = some f → f < s.frames.size) :
    (s.newFrame outer).2.WellFormed where
  outer_lt {g f frame} h ho := by
    rcases of_frames_newFrame h with ⟨rfl, rfl⟩ | hold
    · exact hf f ho
    · exact hs.outer_lt hold ho
  frame_lt h := by
    rw [Store.newFrame, Array.size_push]
    exact Nat.lt_succ_of_lt (hs.frame_lt h)

theorem WellFormed.newClosure (hs : s.WellFormed) {c : Closure} (hc : c.frame < s.frames.size) :
    (s.newClosure c).2.WellFormed where
  outer_lt := hs.outer_lt
  frame_lt {id c'} h := by
    rcases of_closures_newClosure h with rfl | hold
    · exact hc
    · exact hs.frame_lt hold

theorem WellFormed.nameClosure (hs : s.WellFormed) (v : Value) (name : String) :
    (s.nameClosure v name).WellFormed := by
  have hsize : s.frames.size ≤ (s.nameClosure v name).frames.size := by simp
  refine hs.of_links hsize (fun h => ?_) fun h => ?_
  · rw [frames_nameClosure] at h
    exact ⟨_, h, rfl⟩
  · obtain ⟨c, name', hc, rfl⟩ := of_closures_nameClosure h
    exact ⟨c, hc, rfl⟩

theorem WellFormed.declare (hs : s.WellFormed) (f : FrameId) (name : String) :
    (s.declare f name).2.WellFormed :=
  hs.of_links (by simp [Store.declare, newCell])
    (outer_of_getElem?_bind (s := (s.newCell .absent).2)) fun h => ⟨_, h, rfl⟩

theorem WellFormed.define (hs : s.WellFormed) (f : FrameId) (name : String) (v : Value) :
    (s.define f name v).2.WellFormed := by
  unfold Store.define
  split
  · exact hs.of_eq rfl rfl
  · exact hs.of_links (by simp [newCell]) (outer_of_getElem?_bind (s := (s.newCell v).2))
      fun h => ⟨_, h, rfl⟩

/-! ## Walks outward -/

/-- The walk outward from a frame ends in another, around which there is none. -/
inductive EndsIn (s : Store) : FrameId → FrameId → Prop where
  | outermost {f : FrameId} {frame : Frame} : s.frames[f]? = some frame → frame.outer = none →
      EndsIn s f f
  | outward {f g r : FrameId} {frame : Frame} : s.frames[f]? = some frame →
      frame.outer = some g → EndsIn s g r → EndsIn s f r

/-- In a well-formed store every walk outward ends. -/
theorem WellFormed.exists_endsIn (hs : s.WellFormed) (hf : f < s.frames.size) :
    ∃ r, s.EndsIn f r := by
  induction f using Nat.strongRecOn with
  | ind f ih =>
    have hframe := Array.getElem?_eq_getElem hf
    cases ho : s.frames[f].outer with
    | none => exact ⟨f, .outermost hframe ho⟩
    | some g =>
      have hlt := hs.outer_lt hframe ho
      obtain ⟨r, hr⟩ := ih g hlt (Nat.lt_trans hlt hf)
      exact ⟨r, .outward hframe ho hr⟩

theorem EndsIn.of_growsInto (he : s.EndsIn f r) (h : s.GrowsInto s') : s'.EndsIn f r := by
  induction he with
  | outermost hframe ho =>
    obtain ⟨frame', hframe', hg⟩ := h.frames hframe
    exact .outermost hframe' (hg.outer.trans ho)
  | outward hframe ho _ ih =>
    obtain ⟨frame', hframe', hg⟩ := h.frames hframe
    exact .outward hframe' (hg.outer.trans ho) ih

theorem GrowsInto.endsIn (h : s.GrowsInto s') (hs' : s'.WellFormed)
    (hr : ∀ g < s.frames.size, s.EndsIn g r) (hf : f < s'.frames.size) : s'.EndsIn f r := by
  induction f using Nat.strongRecOn with
  | ind f ih =>
    rcases Nat.lt_or_ge f s.frames.size with hlt | hge
    · exact (hr f hlt).of_growsInto h
    · have hframe := Array.getElem?_eq_getElem hf
      obtain ⟨g, ho⟩ := Option.isSome_iff_exists.1 (h.inner hframe hge)
      have hlt := hs'.outer_lt hframe ho
      exact .outward hframe ho (ih g hlt (Nat.lt_trans hlt hf))

theorem GrowsInto.ownCell? (h : s.GrowsInto s') (ho : s.ownCell? f name = some c) :
    s'.ownCell? f name = some c := by
  obtain ⟨frame, hframe, hc⟩ := Option.bind_eq_some_iff.1 ho
  obtain ⟨frame', hframe', hg⟩ := h.frames hframe
  obtain ⟨new, hnew⟩ := hg.bindings
  have hlookup : frame.bindings.lookup name = some c := hc
  rw [Store.ownCell?, hframe', Option.bind_some, Frame.cell?, ← hnew, List.lookup_append, hlookup]
  rfl

theorem WellFormed.outer?_eq (hs : s.WellFormed) {frame : Frame} (hframe : s.frames[f]? = some frame)
    (ho : frame.outer = some g) : ∃ hlt, s.outer? f = some ⟨g, hlt⟩ := by
  have hlt := hs.outer_lt hframe ho
  refine ⟨hlt, ?_⟩
  simp [outer?, hframe, ho, hlt]

theorem EndsIn.isSome_findCell? (he : s.EndsIn f r) (hs : s.WellFormed)
    (hr : (s.ownCell? r name).isSome) : (s.findCell? f name).isSome := by
  induction he with
  | outermost =>
    obtain ⟨c, hc⟩ := Option.isSome_iff_exists.1 hr
    rw [findCell?, hc]
    rfl
  | outward hframe ho _ ih =>
    obtain ⟨hlt, hout⟩ := hs.outer?_eq hframe ho
    rw [findCell?]
    split
    · rfl
    · rw [hout]
      exact ih hr

end Store

end Keel
