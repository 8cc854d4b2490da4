import Keel.Proofs.Discipline.Session
import Keel.Proofs.Growth.Evaluation

/-! # Sessions extend the store

A session starts with the frame of the basis alone. Whatever it is asked for, and
however often that fails, all frames lead to that frame, and the names of the
basis stay bound there to the cells that they had from the start.
-/

namespace Keel

namespace Store

variable {s : Store} {f : FrameId}

/-! ## The basis -/

theorem GrowsInto.define {s' : Store} (h : s.GrowsInto s') (f : FrameId) (name : String)
    (v : Value) : s.GrowsInto (s'.define f name v).2 :=
  h.trans (s'.growsInto_define f name v)

theorem growsInto_definePrimitives (s : Store) (f : FrameId) (id : Identity) (ps : List Primitive) :
    s.GrowsInto (s.definePrimitives f id ps) :=
  definePrimitives_induction (fun _ _ _ h => h.define f _ _) id ps (.refl s)

theorem growsInto_register (s : Store) (f : FrameId) : s.GrowsInto (s.register f) :=
  register_induction (fun _ _ _ h => h.define f _ _) (fun _ h => h.define f _ _)
    (.of_eq rfl rfl (Nat.le_refl _))

theorem WellFormed.register (hs : s.WellFormed) (f : FrameId) : (s.register f).WellFormed :=
  register_induction (fun _ _ _ h => h.define f _ _) (fun _ h => h.define f _ _) (hs.of_eq rfl rfl)

theorem isSome_ownCell?_define (hf : f < s.frames.size) (name : String) (v : Value) :
    ((s.define f name v).2.ownCell? f name).isSome := by
  cases hown : s.ownCell? f name with
  | some c =>
    have hsame : (s.setCell c v).ownCell? f name = s.ownCell? f name := rfl
    rw [define_of_eq_some hown, hsame, hown]
    rfl
  | none =>
    rw [define_of_eq_none hown, ownCell?_bindNew hf, if_pos ⟨rfl, rfl⟩]
    rfl

def basisNames : List String :=
  Primitive.all.map Primitive.name ++ ["empty-symbol"]

theorem GrowsInto.isSome_ownCell? {s' : Store} (h : s.GrowsInto s') {name : String}
    (hb : (s.ownCell? f name).isSome) : (s'.ownCell? f name).isSome := by
  obtain ⟨c, hc⟩ := Option.isSome_iff_exists.1 hb
  exact Option.isSome_of_eq_some (h.ownCell? hc)

theorem isSome_ownCell?_definePrimitives (hf : f < s.frames.size) (id : Identity)
    {ps : List Primitive} {p : Primitive} (hp : p ∈ ps) :
    ((s.definePrimitives f id ps).ownCell? f p.name).isSome := by
  induction ps generalizing s with
  | nil => exact nomatch hp
  | cons q ps ih =>
    have hgrow := s.growsInto_define f q.name (.primitive id q)
    rcases List.mem_cons.1 hp with rfl | hmem
    · have hrest := growsInto_definePrimitives (s.define f p.name (.primitive id p)).2 f id ps
      exact hrest.isSome_ownCell? (isSome_ownCell?_define hf p.name _)
    · exact ih (Nat.lt_of_lt_of_le hf hgrow.size_le) hmem

theorem isSome_ownCell?_register (hf : f < s.frames.size) {name : String}
    (hname : name ∈ basisNames) : ((s.register f).ownCell? f name).isSome := by
  rw [register_eq]
  have hgrow := growsInto_definePrimitives s.newIdentity.2 f s.nextId Primitive.all
  have hbound : ∀ p ∈ Primitive.all,
      ((s.newIdentity.2.definePrimitives f s.nextId Primitive.all).ownCell? f p.name).isSome :=
    fun p hp => isSome_ownCell?_definePrimitives (s := s.newIdentity.2) hf s.nextId hp
  revert hgrow hbound
  generalize s.newIdentity.2.definePrimitives f s.nextId Primitive.all = s'
  intro hgrow hbound
  rcases List.mem_append.1 hname with hp | he
  · obtain ⟨p, hmem, rfl⟩ := List.mem_map.1 hp
    exact (s'.growsInto_define f _ _).isSome_ownCell? (hbound p hmem)
  · obtain rfl := List.mem_singleton.1 he
    exact isSome_ownCell?_define (Nat.lt_of_lt_of_le hf hgrow.size_le) _ _

theorem newBasis_eq (s : Store) :
    s.newBasis = (s.frames.size, (s.newFrame none).2.register s.frames.size) :=
  rfl

end Store

/-! ## Sessions -/

namespace Discipline.growth

theorem hosted : growth.Hosted where
  recover h := h
  legible _ := trivial
  load hm _ := keeps_updating (.of_eq rfl rfl (Nat.le_refl _)) (hm.of_eq rfl rfl) trivial
  advance hm hs := ⟨⟨.refl _, ⟨"", by simp⟩, hs.suffix⟩, hm⟩
  write text hm _ := ⟨⟨.refl _, ⟨text, rfl⟩, List.suffix_refl _⟩, hm⟩

end Discipline.growth

namespace Session

theorem start_eq (source : Source) :
    start source = ⟨⟨Store.empty.newBasis.2, source, ""⟩, Store.empty.newBasis.1, []⟩ := by
  unfold start
  generalize Store.empty.newBasis = basis
  rfl

def blank : Store :=
  (Store.empty.newFrame none).2

variable (source : Source)

theorem store_start : (start source).machine.store = blank.register 0 := by
  have hsize : Store.empty.frames.size = 0 := rfl
  rw [start_eq, Store.newBasis_eq, hsize, blank]

theorem root_start : (start source).root = 0 := by
  rw [start_eq]
  rfl

theorem growsInto_start : blank.GrowsInto (start source).machine.store := by
  rw [store_start]
  exact Store.growsInto_register blank 0

theorem wellFormed_start : (start source).machine.store.WellFormed := by
  have hblank : blank.WellFormed := Store.wellFormed_empty.newFrame nofun
  rw [store_start]
  exact hblank.register 0

theorem endsIn_start {f : FrameId} (hf : f < (start source).machine.store.frames.size) :
    (start source).machine.store.EndsIn f (start source).root := by
  refine (growsInto_start source).endsIn (wellFormed_start source) (fun g hg => ?_) hf
  have hsize : blank.frames.size = 1 := rfl
  obtain rfl : g = 0 := Nat.lt_one_iff.1 (hsize ▸ hg)
  rw [root_start]
  exact .outermost rfl rfl

theorem isSome_ownCell?_start {name : String} (hname : name ∈ Store.basisNames) :
    ((start source).machine.store.ownCell? (start source).root name).isSome := by
  rw [store_start, root_start]
  exact Store.isSome_ownCell?_register (s := blank) Nat.zero_lt_one hname

theorem sound_start : Discipline.growth.Sound (start source) where
  good := wellFormed_start source
  scope := by
    rw [root_start]
    exact Nat.lt_of_lt_of_le Nat.zero_lt_one (growsInto_start source).size_le

end Session

/-- Evaluation only extends the store, whatever its outcome, and it leaves the store well-formed, so
that all walks outward end. In a session they end in the frame of the basis whatever has been done
and has failed; there the names of the basis keep their cells, so that they are found everywhere. -/
theorem evaluation_only_extends :
    (∀ (style : Style) (limit : Nat) (m : Machine) (f : FrameId) (expr : Value),
      m.store.WellFormed → f < m.store.frames.size →
      let m' := (evaluate style limit f expr).after m
      m'.store.WellFormed ∧ (∀ g < m'.store.frames.size, ∃ r, m'.store.EndsIn g r) ∧
        m.GrowsInto m') ∧
    ∀ (source : Source) (deeds : List (Setup × Session.Deed)),
      let first := Session.start source
      let last := first.afterAll deeds
      last.root = first.root ∧ last.machine.store.WellFormed ∧
      first.machine.GrowsInto last.machine ∧
      (∀ f < last.machine.store.frames.size, last.machine.store.EndsIn f first.root) ∧
      (∀ c ∈ last.machine.store.closures, last.machine.store.EndsIn c.frame first.root) ∧
      ∀ name ∈ Store.basisNames, ∃ c, first.machine.store.ownCell? first.root name = some c ∧
        last.machine.store.ownCell? first.root name = some c ∧
        ∀ f < last.machine.store.frames.size, (last.machine.store.findCell? f name).isSome := by
  constructor
  · intro style limit m f expr hm hf
    have hkeeps : Discipline.growth.Keeps m (evaluate style limit f expr) fun _ _ => True :=
      (Discipline.growth.lawful style).evaluate limit hm hf trivial
    obtain ⟨hgrows, hm'⟩ := Discipline.growth.after hkeeps
    exact ⟨hm', fun _ hg => hm'.exists_endsIn hg, hgrows⟩
  · intro source deeds first last
    have hreach : Discipline.growth.Reaches first last :=
      Discipline.reaches_afterAll Discipline.growth.lawful Discipline.growth.hosted
        (Session.sound_start source) deeds
    have hwf : last.machine.store.WellFormed := hreach.sound.good
    have hgrows : first.machine.GrowsInto last.machine := hreach.step
    have hends : ∀ f < last.machine.store.frames.size, last.machine.store.EndsIn f first.root :=
      fun f hf => hgrows.store.endsIn hwf (fun _ hg => Session.endsIn_start source hg) hf
    refine ⟨hreach.root, hwf, hgrows, hends, ?_, ?_⟩
    · intro c hc
      obtain ⟨id, hid⟩ := Array.mem_iff_getElem?.1 hc
      exact hends _ (hwf.frame_lt hid)
    · intro name hname
      obtain ⟨c, hc⟩ := Option.isSome_iff_exists.1 (Session.isSome_ownCell?_start source hname)
      have hkept := hgrows.store.ownCell? hc
      refine ⟨c, hc, hkept, fun f hf => ?_⟩
      exact (hends f hf).isSome_findCell? hwf (Option.isSome_of_eq_some hkept)

/-- A definition in an inner frame, evaluated as far as a limit of two admits. -/
theorem evaluation_only_extends_define :
    let store : Store := ⟨#[⟨[], none⟩, ⟨[], some 0⟩], #[], #[⟨[], [], 1, none⟩], 0⟩
    let m : Machine := ⟨store, .ofString "", ""⟩
    let expr : Value := .listTo 0 [.symbol "define", .symbol "x", .int 1] .nil
    store.WellFormed ∧ 1 < store.frames.size ∧
      m.GrowsInto ((evaluate .plain 2 1 expr).after m) ∧
      ((evaluate .plain 2 1 expr).after m).store.ownCell? 1 "x" = some 0 := by
  intro store m expr
  have hwf : store.WellFormed := by decide
  exact ⟨hwf, by decide, (evaluation_only_extends.1 .plain 2 m 1 expr hwf (by decide)).2.2,
    by decide⟩

end Keel
