import Keel.Machine
import Keel.Proofs.Identity.Heap

/-! # Computations that keep a heap

A computation keeps a heap if it makes pairs at most: what the store holds in the
end, and what is in hand then, lives in a heap that extends the first one. It is
one heap for all of them, so that values in hand together agree on their pairs.
-/

namespace Keel

class Storing (σ : Type) where
  store : σ → Store

instance : Storing Machine := ⟨Machine.store⟩

namespace Heap

section Computations

variable {σ α β : Type} [Storing σ] {h h' : Heap} {s : σ} {a b : EStateM Fault σ α}
  {post mid : Heap → α → Prop}

def Ended (h : Heap) (post : Heap → α → Prop) : EStateM.Result Fault σ α → Prop
  | .ok v s => (Storing.store s).Backed h ∧ post h v
  | .error _ s => (Storing.store s).Backed h

/-- From the state, the computation at most makes pairs. -/
def KeepsFrom (h : Heap) (s : σ) (a : EStateM Fault σ α) (post : Heap → α → Prop) : Prop :=
  ∃ h', h.Extends h' ∧ h'.Ended post (a s)

/-- From every state that the heap backs, the computation at most makes pairs. -/
def Keeps (h : Heap) (a : EStateM Fault σ α) (post : Heap → α → Prop) : Prop :=
  ∀ s, (Storing.store s).Backed h → h.KeepsFrom s a post

theorem KeepsFrom.of_eq_ok {v : α} {s' : σ} (ha : h.KeepsFrom s a post) (heq : a s = .ok v s') :
    ∃ h', h.Extends h' ∧ (Storing.store s').Backed h' ∧ post h' v := by
  obtain ⟨h', hh, hended⟩ := ha
  rw [heq] at hended
  exact ⟨h', hh, hended⟩

theorem KeepsFrom.of_eq_error {fault : Fault} {s' : σ} (ha : h.KeepsFrom s a post)
    (heq : a s = .error fault s') : ∃ h', h.Extends h' ∧ (Storing.store s').Backed h' := by
  obtain ⟨h', hh, hended⟩ := ha
  rw [heq] at hended
  exact ⟨h', hh, hended⟩

/-- A computation that goes on as another one does from a state that was reached. -/
theorem KeepsFrom.of_extends {s' : σ} {k k' : EStateM Fault σ β} {post : Heap → β → Prop}
    (hk : h'.KeepsFrom s' k post) (hh : h.Extends h') (heq : k' s = k s') :
    h.KeepsFrom s k' post := by
  obtain ⟨h'', hh', hended⟩ := hk
  refine ⟨h'', hh.trans hh', ?_⟩
  rwa [heq]

theorem KeepsFrom.congr (hb : h.KeepsFrom s b post) (heq : a s = b s) : h.KeepsFrom s a post :=
  hb.of_extends (.refl h) heq

/-! ## Putting computations together -/

theorem keeps_pure {v : α} (hv : post h v) : h.Keeps (pure v : EStateM Fault σ α) post :=
  fun _ hs => ⟨h, .refl h, hs, hv⟩

theorem keeps_throw (fault : Fault) : h.Keeps (throw fault : EStateM Fault σ α) post :=
  fun _ hs => ⟨h, .refl h, hs⟩

theorem keeps_get {k : σ → EStateM Fault σ β} {post : Heap → β → Prop}
    (hk : ∀ s, (Storing.store s).Backed h → h.KeepsFrom s (k s) post) :
    h.Keeps (get >>= k) post :=
  hk

theorem Keeps.bind {k : α → EStateM Fault σ β} {post : Heap → β → Prop} (ha : h.Keeps a mid)
    (hk : ∀ h', h.Extends h' → ∀ v, mid h' v → h'.Keeps (k v) post) :
    h.Keeps (a >>= k) post := by
  intro s hs
  cases has : a s with
  | ok v s' =>
    obtain ⟨h₁, hh₁, hs₁, hv⟩ := (ha s hs).of_eq_ok has
    exact (hk h₁ hh₁ v hv s' hs₁).of_extends hh₁ (bind_of_eq_ok has)
  | error fault s' =>
    obtain ⟨h₁, hh₁, hs₁⟩ := (ha s hs).of_eq_error has
    exact (keeps_throw fault s' hs₁).of_extends hh₁ (bind_of_eq_error has)

theorem Keeps.tryCatch {handle : Fault → EStateM Fault σ α} (ha : h.Keeps a post)
    (hhandle : ∀ h', h.Extends h' → ∀ fault, h'.Keeps (handle fault) post) :
    h.Keeps (tryCatch a handle) post := by
  intro s hs
  cases has : a s with
  | ok v s' => exact (ha s hs).congr ((tryCatch_of_eq_ok has).trans has.symm)
  | error fault s' =>
    obtain ⟨h₁, hh₁, hs₁⟩ := (ha s hs).of_eq_error has
    exact (hhandle h₁ hh₁ fault s' hs₁).of_extends hh₁ (tryCatch_of_eq_error has)

theorem Keeps.discard (ha : h.Keeps a fun _ _ => True) :
    h.Keeps (discard a) fun _ _ => True :=
  ha.bind fun _ _ _ _ => keeps_pure trivial

section Lists

variable {F : α → EStateM Fault σ β} {items : List α} {post : Heap → β → Prop}

theorem keeps_mapM (hF : ∀ h', h.Extends h' → ∀ x ∈ items, h'.Keeps (F x) post)
    (hpost : ∀ {h h' v}, h.Extends h' → post h v → post h' v) :
    h.Keeps (items.mapM F) fun h' vs => ∀ v ∈ vs, post h' v := by
  induction items generalizing h with
  | nil => exact keeps_pure nofun
  | cons x items ih =>
    rw [List.mapM_cons]
    refine (hF h (.refl h) x List.mem_cons_self).bind fun h₁ hh₁ v hv => ?_
    refine (ih fun h' hh' y hy => hF h' (hh₁.trans hh') y (List.mem_cons_of_mem _ hy)).bind
      fun h₂ hh₂ vs hvs => ?_
    exact keeps_pure (List.forall_mem_cons.2 ⟨hpost hh₂ hv, hvs⟩)

theorem keeps_forM {F : α → EStateM Fault σ Unit}
    (hF : ∀ h', h.Extends h' → ∀ x ∈ items, h'.Keeps (F x) fun _ _ => True) :
    h.Keeps (items.forM F) fun _ _ => True := by
  induction items generalizing h with
  | nil => exact keeps_pure trivial
  | cons x items ih =>
    rw [List.forM_eq_forM, List.forM_cons]
    exact (hF h (.refl h) x List.mem_cons_self).bind fun h₁ hh₁ _ _ =>
      ih fun h' hh' y hy => hF h' (hh₁.trans hh') y (List.mem_cons_of_mem _ hy)

theorem keeps_foldlM {F : β → α → EStateM Fault σ β} {w : β} (hw : post h w)
    (hF : ∀ h', h.Extends h' → ∀ v, post h' v → ∀ x ∈ items, h'.Keeps (F v x) post) :
    h.Keeps (items.foldlM F w) post := by
  induction items generalizing h w with
  | nil => exact keeps_pure hw
  | cons x items ih =>
    rw [List.foldlM_cons]
    exact (hF h (.refl h) w hw x List.mem_cons_self).bind fun h₁ hh₁ v hv =>
      ih hv fun h' hh' u hu y hy => hF h' (hh₁.trans hh') u hu y (List.mem_cons_of_mem _ hy)

end Lists

end Computations

/-! ## Actions -/

section Actions

variable {α : Type} {h : Heap} {post : Heap → α → Prop} {limit : Nat} {v : Value} {f : FrameId}
  {name : String}

theorem keeps_misuse (cause : Misuse) : h.Keeps (Action.misuse cause : Action α) post :=
  keeps_throw _

theorem keeps_ofExcept {x : Except Fault α} (hx : ∀ v, x = .ok v → post h v) :
    h.Keeps (Action.ofExcept x) post := by
  cases x with
  | ok v => exact keeps_pure (hx v rfl)
  | error fault => exact keeps_throw fault

theorem keeps_inspecting {g : Store → Except Fault α}
    (hg : ∀ s, s.Backed h → ∀ v, g s = .ok v → post h v) :
    h.Keeps (Action.inspecting g) post :=
  keeps_get fun m hm => keeps_ofExcept (hg m.store hm) m hm

theorem keeps_looking {g : Store → Except Fault α} :
    h.Keeps (Action.inspecting g) fun _ _ => True :=
  keeps_inspecting fun _ _ _ _ => trivial

theorem keeps_shown : h.Keeps (Action.shown limit v) fun _ _ => True :=
  keeps_looking

theorem keeps_updating {g : Store → α × Store}
    (hg : ∀ s, s.Backed h → ∃ h', h.Extends h' ∧ (g s).2.Backed h' ∧ post h' (g s).1) :
    h.Keeps (Action.updating g) post :=
  fun m hm => hg m.store hm

theorem keeps_updating_of_backed {g : Store → α × Store}
    (hg : ∀ s, s.Backed h → (g s).2.Backed h ∧ post h (g s).1) :
    h.Keeps (Action.updating g) post :=
  keeps_updating fun s hs => ⟨h, .refl h, hg s hs⟩

theorem keeps_setCell (hv : h.Holds v) (c : CellId) :
    h.Keeps (Action.updating fun s => ((), s.setCell c v)) fun _ _ => True :=
  keeps_updating_of_backed fun _ hs => ⟨hs.setCell hv c, trivial⟩

theorem keeps_define (hv : h.Holds v) : h.Keeps (Action.define f name v) fun _ _ => True :=
  (keeps_updating_of_backed fun _ hs => ⟨hs.define hv f name, trivial⟩).discard

theorem keeps_assign (hv : h.Holds v) : h.Keeps (Action.assign f name v) fun _ _ => True :=
  keeps_get fun m hm => by
    cases m.store.findCell? f name with
    | some c => exact keeps_setCell hv c m hm
    | none => exact keeps_throw _ m hm

theorem keeps_newFrame : h.Keeps (Action.newFrame f) fun _ _ => True :=
  keeps_updating_of_backed fun _ hs => ⟨hs.newFrame (some f), trivial⟩

theorem keeps_declare : h.Keeps (Action.updating (·.declare f name)) fun _ _ => True :=
  keeps_updating_of_backed fun _ hs => ⟨hs.bindNew (v := .absent) trivial f name, trivial⟩

theorem keeps_newClosure {formals body : List Value} {name : Option String}
    (hformals : h.HoldsAll formals) (hbody : h.HoldsAll body) :
    h.Keeps (Action.newClosure formals body f name) Holds :=
  keeps_updating_of_backed fun _ hs => ⟨hs.newClosure hformals hbody, trivial⟩

theorem keeps_named (hv : h.Holds v) : h.Keeps (Action.named v name) Holds := by
  have hname : h.Keeps (Action.updating fun s => ((), s.nameClosure v name)) fun _ _ => True :=
    keeps_updating_of_backed fun _ hs => ⟨hs.nameClosure v name, trivial⟩
  exact hname.bind fun _ hh _ _ => keeps_pure (hv.mono hh)

theorem keeps_newList {items : List Value} (hitems : h.HoldsAll items) :
    h.Keeps (Action.updating (·.newList items .nil)) Holds :=
  keeps_updating fun s hs => by
    have hnil : h.Holds .nil := trivial
    obtain ⟨h', hh, hnext, hlist⟩ := h.exists_holds_listTo hitems hnil
    rw [← hs.next] at hnext hlist
    exact ⟨h', hh, hs.renumber hh hnext, hlist⟩

theorem keeps_newPair {car cdr : Value} (hcar : h.Holds car) (hcdr : h.Holds cdr) :
    h.Keeps (Action.updating (·.newPair car cdr)) Holds :=
  keeps_updating fun s hs => by
    obtain ⟨h', hh, hnext, hpair⟩ :=
      h.exists_holds_listTo (List.forall_mem_singleton.2 hcar) hcdr
    rw [← hs.next] at hnext hpair
    exact ⟨h', hh, hs.renumber hh hnext, hpair⟩

theorem keeps_load (d : Datum) : h.Keeps (Action.updating (·.load d)) Holds :=
  keeps_updating fun s hs => by
    obtain ⟨h', hh, hnext, hd⟩ := h.exists_holds_ofDatum d
    rw [← hs.next] at hnext hd
    exact ⟨h', hh, hs.renumber hh hnext, hd⟩

theorem keeps_properList {construct : String} (hv : h.Holds v) :
    h.Keeps (Action.properList construct v) HoldsAll := by
  unfold Action.properList
  cases hitems : v.toList? with
  | some items => exact keeps_pure (hv.items hitems)
  | none => exact keeps_misuse _

theorem keeps_nextChar : h.Keeps Action.nextChar fun _ _ => True :=
  fun _ hm => ⟨h, .refl h, hm, trivial⟩

theorem keeps_write (text : String) : h.Keeps (Action.write text) fun _ _ => True :=
  fun _ hm => ⟨h, .refl h, hm, trivial⟩

end Actions

end Heap

end Keel
