import Keel.Proofs.Effect.Evaluation

/-! # Evaluation without assignments changes its own frame at most

If no assignment can be met, every other frame that existed is the same after the
evaluation, with the same values. If no definition can be met either, then nothing
that existed is changed; and a call never changes anything that existed, since
the definitions in a body bind names in the frame of the call.
-/

namespace Keel

namespace Store

variable {s s' : Store} {f g : FrameId} {c : CellId}

def BodiesOmit (s : Store) (name : String) : Prop :=
  ∀ c ∈ s.closures, ∀ x ∈ c.body, x.mentions name = false

instance (s : Store) (name : String) : Decidable (s.BodiesOmit name) :=
  inferInstanceAs (Decidable (∀ c ∈ s.closures, ∀ x ∈ c.body, x.mentions name = false))

/-- The frame has the same bindings in both stores, and the same values. -/
structure SameFrame (s s' : Store) (f : FrameId) : Prop where
  frame : s'.frames[f]? = s.frames[f]?
  values : ∀ {c}, s.Binds f c → s'.cells[c]? = s.cells[c]?

/-- Every frame and every cell that exists in the first store is the same in the second. -/
structure Unchanged (s s' : Store) : Prop where
  frames : ∀ f < s.frames.size, s'.frames[f]? = s.frames[f]?
  cells : ∀ c < s.cells.size, s'.cells[c]? = s.cells[c]?

theorem harmlessBodies {home : Option FrameId} (hassign : s.BodiesOmit Form.assign.name)
    (hdefine : home = none → s.BodiesOmit Form.define.name) : s.HarmlessBodies home := by
  intro id c hid x hx
  have hc : c ∈ s.closures := Array.mem_of_getElem? hid
  exact .inr ⟨hassign c hc x hx, fun hhome => hdefine hhome c hc x hx⟩

theorem ChangesOnly.frame (h : s.ChangesOnly (some f) s') (hg : g < s.frames.size) (hne : g ≠ f) :
    s'.frames[g]? = s.frames[g]? := by
  refine h.frames ?_
  rintro (hhome | hnew)
  · exact hne (Option.some.inj hhome).symm
  · exact absurd hg (Nat.not_lt.2 hnew)

theorem ChangesOnly.cell (h : s.ChangesOnly (some f) s') (hc : c < s.cells.size)
    (hbinds : ¬ s.Binds f c) : s'.cells[c]? = s.cells[c]? := by
  refine h.cells ?_
  rintro (⟨f', hhome, hf'⟩ | hnew)
  · obtain rfl := Option.some.inj hhome
    exact hbinds hf'
  · exact absurd hc (Nat.not_lt.2 hnew)

/-- If no cell is bound in two frames, then the values of the other frames are the same. -/
theorem ChangesOnly.sameFrame (h : s.ChangesOnly (some f) s') (hs : s.Separate)
    (hg : g < s.frames.size) (hne : g ≠ f) : s.SameFrame s' g where
  frame := h.frame hg hne
  values hb := h.cell (hs.bound hb) fun hf => hne (hs.alone hb hf)

theorem ChangesOnly.unchanged {home : Option FrameId} (h : s.ChangesOnly home s')
    (hhome : ∀ f, home = some f → s.frames.size ≤ f) : s.Unchanged s' where
  frames f hf := by
    refine h.frames ?_
    rintro (heq | hnew)
    · exact absurd hf (Nat.not_lt.2 (hhome f heq))
    · exact absurd hf (Nat.not_lt.2 hnew)
  cells c hc := by
    refine h.cells ?_
    rintro (⟨f, heq, hbinds⟩ | hnew)
    · exact absurd hbinds.lt_size (Nat.not_lt.2 (hhome f heq))
    · exact absurd hc (Nat.not_lt.2 hnew)

end Store

/-- If no assignment occurs in the expression and in the bodies of the closures, then evaluation
leaves every frame as it is but the one in which it takes place, and every cell which that frame
does not bind, whatever the outcome; so the other frames keep their values, since no two frames of a
session bind the same cell. If no definition occurs either, then nothing that existed is changed.
Calls change nothing that existed, also where definitions occur. -/
theorem evaluation_changes_own_frame :
    (∀ (style : Style) (limit : Nat) (m : Machine) (f : FrameId) (expr : Value),
      expr.mentions "set!" = false → m.store.BodiesOmit "set!" →
      let s := m.store
      let s' := ((evaluate style limit f expr).after m).store
      (∀ g < s.frames.size, g ≠ f → s'.frames[g]? = s.frames[g]?) ∧
      (∀ c < s.cells.size, ¬ s.Binds f c → s'.cells[c]? = s.cells[c]?) ∧
      (s.Separate → ∀ g < s.frames.size, g ≠ f → s.SameFrame s' g) ∧
      (expr.mentions "define" = false → s.BodiesOmit "define" → s.Unchanged s')) ∧
    (∀ (style : Style) (limit : Nat) (m : Machine) (fn : Value) (args : List Value),
      m.store.BodiesOmit "set!" →
      m.store.Unchanged ((fn.call style limit (evaluate style limit) args).after m).store) ∧
    (∀ (style : Style) (limit : Nat) (m : Machine) (f : FrameId) (expr : Value),
      m.store.Separate → ((evaluate style limit f expr).after m).store.Separate) ∧
    ∀ (source : Source) (deeds : List (Setup × Session.Deed)),
      ((Session.start source).afterAll deeds).machine.store.Separate := by
  refine ⟨?_, ?_, ?_, Session.separate_afterAll⟩
  · intro style limit m f expr hassign hbodies s s'
    have hchanges : s.ChangesOnly (some f) s' :=
      Discipline.effect.changesOnly_evaluate (.inr rfl) (.inr ⟨hassign, nofun⟩)
        (Store.harmlessBodies hbodies nofun)
    refine ⟨fun g => hchanges.frame, fun c => hchanges.cell, fun hs g => hchanges.sameFrame hs, ?_⟩
    intro hdefine hbodies'
    have hnothing : s.ChangesOnly none s' :=
      Discipline.effect.changesOnly_evaluate (.inl rfl) (.inr ⟨hassign, fun _ => hdefine⟩)
        (Store.harmlessBodies hbodies fun _ => hbodies')
    exact hnothing.unchanged nofun
  · intro style limit m fn args hbodies
    have hchanges : m.store.ChangesOnly (some m.store.frames.size)
        ((fn.call style limit (evaluate style limit) args).after m).store :=
      Discipline.effect.changesOnly_call (Store.harmlessBodies hbodies nofun)
    apply hchanges.unchanged
    rintro f ⟨⟩
    exact Nat.le_refl _
  · intro style limit m f expr hs
    exact Store.Separate.lasting.after (e := ⟨limit, f, expr, m⟩) hs style

/-- A function that defines its own `x` is called, and the answer is defined as `x` in the inner
frame: the outer `x` keeps its value. -/
theorem evaluation_changes_own_frame_call :
    let outer := ((Store.empty.newFrame none).2.define 0 "x" (.int 5)).2
    let body : List Value := [.listTo 0 [.symbol "define", .symbol "x", .int 3] .nil, .int 4]
    let store := ((outer.newFrame (some 0)).2.newClosure ⟨[], body, 0, none⟩).2
    let m : Machine := ⟨store, .ofString "", ""⟩
    let call : Value := .listTo 3 [.closure 0] .nil
    let expr : Value := .listTo 4 [.symbol "define", .symbol "x", call] .nil
    let m' := (evaluate .plain 4 1 expr).after m
    let binding : Value := .listTo 7 [.listTo 8 [.symbol "x", .int 2] .nil] .nil
    let inner : Value := .listTo 9 [.symbol "let", binding, .symbol "x"] .nil
    store.Separate ∧ m'.store.Separate ∧ store.SameFrame m'.store 0 ∧
      (m'.store.ownCell? 1 "x").map m'.store.cell = some (.int 4) ∧
      store.Unchanged ((Value.call .plain 4 (evaluate .plain 4) (.closure 0) []).after m).store ∧
      outer.Unchanged ((evaluate .plain 4 0 inner).after ⟨outer, m.source, ""⟩).store := by
  intro outer body store m call expr m' binding inner
  obtain ⟨hevaluate, hcall, hseparate, -⟩ := evaluation_changes_own_frame
  have houter : outer.Separate := (Store.Separate.empty.newFrame none).define 0 "x" (.int 5)
  have hstore : store.Separate := (houter.newFrame (some 0)).of_eq rfl (Nat.le_refl _)
  have hbodies : store.BodiesOmit "set!" := by decide
  obtain ⟨-, -, hsame, -⟩ := hevaluate .plain 4 m 1 expr (by decide) hbodies
  obtain ⟨-, -, -, hunchanged⟩ :=
    hevaluate .plain 4 ⟨outer, m.source, ""⟩ 0 inner (by decide) (by decide)
  have hvalue : (m'.store.ownCell? 1 "x").map m'.store.cell = some (.int 4) := by decide
  exact ⟨hstore, hseparate .plain 4 m 1 expr hstore, hsame hstore 0 (by decide) (by decide),
    hvalue, hcall .plain 4 m (.closure 0) [] hbodies, hunchanged (by decide) (by decide)⟩

end Keel
