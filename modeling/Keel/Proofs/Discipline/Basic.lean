import Keel.Evaluation

/-! # Disciplines of evaluation

A discipline says what evaluation maintains: from which machines it may go on,
what may have happened meanwhile, and which frames, code and values it deals
with. An action keeps a discipline if both of its outcomes are as the discipline
says. Actions that keep it can be put one after the other.
-/

namespace Keel

def Action.after {α : Type} (a : Action α) (m : Machine) : Machine :=
  match a m with
  | .ok _ m' => m'
  | .error _ m' => m'

/-- What evaluation is to maintain. -/
structure Discipline where
  /-- The machines from which evaluation may go on. -/
  Good : Machine → Prop
  /-- What may have happened when evaluation goes on. -/
  Step : Machine → Machine → Prop
  /-- What may have happened when evaluation has ended in a fault. -/
  Fails : Machine → Fault → Machine → Prop
  /-- The frames in which code may be evaluated. -/
  Scope : FrameId → Machine → Prop
  /-- The frames in which names may be bound. -/
  Own : FrameId → Machine → Prop
  /-- What may be evaluated. -/
  Code : Value → Machine → Prop
  /-- What may be the value of something. -/
  Val : Value → Machine → Prop
  /-- The frames that closures may have; code is evaluated in frames inside of them. -/
  Captured : FrameId → Machine → Prop := Scope

namespace Discipline

variable (D : Discipline)

/-- From `m` the action either goes on with `post`, or fails as it may. -/
def Keeps {α : Type} (m : Machine) (a : Action α) (post : α → Machine → Prop) : Prop :=
  match a m with
  | .ok v m' => D.Step m m' ∧ D.Good m' ∧ post v m'
  | .error fault m' => D.Fails m fault m'

def EvaluatorKeeps (ev : Evaluator) : Prop :=
  ∀ {m frame expr}, D.Good m → D.Scope frame m → D.Code expr m → D.Keeps m (ev frame expr) D.Val

def AllCode (items : List Value) (m : Machine) : Prop :=
  ∀ x ∈ items, D.Code x m

def BindingsCode (bindings : List (String × Value)) (m : Machine) : Prop :=
  ∀ b ∈ bindings, D.Code (.symbol b.1) m ∧ D.Code b.2 m

/-- The relations of the discipline fit together: actions that keep it can be put one after the
other, and where nothing was done there may be a refusal. -/
structure Coherent : Prop where
  refl : ∀ {m}, D.Step m m
  trans : ∀ {m m' m''}, D.Step m m' → D.Step m' m'' → D.Step m m''
  fails_trans : ∀ {m m' m'' fault}, D.Step m m' → D.Fails m' fault m'' → D.Fails m fault m''
  misuse : ∀ {m cause}, D.Good m → D.Fails m (.misuse cause) m
  exceeded : ∀ {m fault}, D.Good m → fault.Exceeded → D.Fails m fault m

variable {D} {α β : Type} {m : Machine}

/-! ## Putting actions together -/

theorem keeps_iff {a : Action α} {post : α → Machine → Prop} : D.Keeps m a post ↔
    (∀ v m', a m = .ok v m' → D.Step m m' ∧ D.Good m' ∧ post v m') ∧
      ∀ fault m', a m = .error fault m' → D.Fails m fault m' := by
  unfold Keeps
  cases a m with
  | ok v m' => simp
  | error fault m' => simp

section Outcomes

variable {a : Action α} {post : α → Machine → Prop} {m' : Machine}

theorem Keeps.of_eq_ok {v : α} (ha : D.Keeps m a post) (h : a m = .ok v m') :
    D.Step m m' ∧ D.Good m' ∧ post v m' :=
  (keeps_iff.1 ha).1 v m' h

theorem Keeps.of_eq_error {fault : Fault} (ha : D.Keeps m a post) (h : a m = .error fault m') :
    D.Fails m fault m' :=
  (keeps_iff.1 ha).2 fault m' h

theorem Keeps.after {P : Machine → Prop} (ha : D.Keeps m a post)
    (hok : ∀ m', D.Step m m' → D.Good m' → P m') (herror : ∀ fault m', D.Fails m fault m' → P m') :
    P (a.after m) := by
  unfold Action.after
  cases ham : a m with
  | error fault m' => exact herror fault m' (ha.of_eq_error ham)
  | ok v m' =>
    obtain ⟨hs, hm', -⟩ := ha.of_eq_ok ham
    exact hok m' hs hm'

theorem Keeps.imp {post' : α → Machine → Prop} (ha : D.Keeps m a post)
    (himp : ∀ v m', D.Good m' → post v m' → post' v m') : D.Keeps m a post' := by
  refine keeps_iff.2 ⟨fun v m' h => ?_, fun _ _ h => ha.of_eq_error h⟩
  obtain ⟨hs, hm', hv⟩ := ha.of_eq_ok h
  exact ⟨hs, hm', himp v m' hm' hv⟩

/-- What has been computed is known afterwards. -/
theorem Keeps.computed (ha : D.Keeps m a post) :
    D.Keeps m a fun v m' => a m = .ok v m' ∧ post v m' := by
  refine keeps_iff.2 ⟨fun v m' h => ?_, fun _ _ h => ha.of_eq_error h⟩
  obtain ⟨hs, hm', hv⟩ := ha.of_eq_ok h
  exact ⟨hs, hm', h, hv⟩

/-- What lasts can be taken along. -/
theorem Keeps.and {last : Machine → Prop} (ha : D.Keeps m a post)
    (hlast : ∀ {m'}, D.Step m m' → last m') : D.Keeps m a fun v m' => post v m' ∧ last m' := by
  refine keeps_iff.2 ⟨fun v m' h => ?_, fun _ _ h => ha.of_eq_error h⟩
  obtain ⟨hs, hm', hv⟩ := ha.of_eq_ok h
  exact ⟨hs, hm', hv, hlast hs⟩

/-- Only what the action does here matters. -/
theorem Keeps.congr {b : Action α} (hb : D.Keeps m b post) (h : a m = b m) : D.Keeps m a post := by
  unfold Keeps at hb ⊢
  rwa [h]

end Outcomes

theorem keeps_updating {g : Store → α × Store} {post : α → Machine → Prop} {v : α} {s : Store}
    (hg : g m.store = (v, s)) (hs : D.Step m { m with store := s })
    (hm : D.Good { m with store := s }) (hp : post v { m with store := s }) :
    D.Keeps m (Action.updating g) post := by
  have hu : Action.updating g m = .ok (g m.store).1 { m with store := (g m.store).2 } := rfl
  unfold Keeps
  rw [hu, hg]
  exact ⟨hs, hm, hp⟩

theorem keeps_named {v : Value} {name : String} {post : Value → Machine → Prop}
    (hs : D.Step m { m with store := m.store.nameClosure v name })
    (hm : D.Good { m with store := m.store.nameClosure v name })
    (hp : post v { m with store := m.store.nameClosure v name }) :
    D.Keeps m (Action.named v name) post :=
  ⟨hs, hm, hp⟩

theorem keeps_assign {f : FrameId} {name : String} {v : Value} {post : Unit → Machine → Prop}
    (hset : ∀ c, m.store.findCell? f name = some c →
      D.Keeps m (Action.updating fun s => ((), s.setCell c v)) post)
    (hunbound : D.Fails m (.unbound (.assigned name)) m) :
    D.Keeps m (Action.assign f name v) post := by
  cases hc : m.store.findCell? f name with
  | some c => exact (hset c hc).congr (Action.assign_of_eq_some hc)
  | none =>
    unfold Keeps
    rw [Action.assign_of_eq_none hc]
    exact hunbound

namespace Coherent

variable (h : D.Coherent)
include h

theorem keeps_pure {v : α} {post : α → Machine → Prop} (hm : D.Good m) (hp : post v m) :
    D.Keeps m (pure v) post :=
  ⟨h.refl, hm, hp⟩

theorem keeps_bind {a : Action α} {k : α → Action β} {mid : α → Machine → Prop}
    {post : β → Machine → Prop} (ha : D.Keeps m a mid)
    (hk : ∀ v m', D.Step m m' → D.Good m' → mid v m' → D.Keeps m' (k v) post) :
    D.Keeps m (a >>= k) post := by
  cases ham : a m with
  | error fault m' =>
    unfold Keeps
    rw [bind_of_eq_error ham]
    exact ha.of_eq_error ham
  | ok v m' =>
    obtain ⟨hs, hg, hv⟩ := ha.of_eq_ok ham
    have hkv := hk v m' hs hg hv
    have hbk : (a >>= k) m = k v m' := bind_of_eq_ok ham
    refine keeps_iff.2 ⟨fun w m'' hw => ?_, fun fault m'' hfault => ?_⟩
    · obtain ⟨hs', hg', hp⟩ := hkv.of_eq_ok (hbk ▸ hw)
      exact ⟨h.trans hs hs', hg', hp⟩
    · exact h.fails_trans hs (hkv.of_eq_error (hbk ▸ hfault))

theorem keeps_misuse {cause : Misuse} {post : α → Machine → Prop} (hm : D.Good m) :
    D.Keeps m (Action.misuse cause) post :=
  h.misuse hm

theorem keeps_discard {a : Action α} (ha : D.Keeps m a fun _ _ => True) :
    D.Keeps m (discard a) fun _ _ => True :=
  h.keeps_bind ha fun _ _ _ hm' _ => h.keeps_pure hm' trivial

theorem keeps_ofExcept {x : Except Fault α} (hm : D.Good m)
    (hx : ∀ fault, x = .error fault → D.Fails m fault m) :
    D.Keeps m (Action.ofExcept x) fun v m' => m' = m ∧ x = .ok v := by
  cases x with
  | error fault => exact hx fault rfl
  | ok v => exact h.keeps_pure hm ⟨rfl, rfl⟩

theorem keeps_inspecting {f : Store → Except Fault α} (hm : D.Good m)
    (hf : ∀ fault, f m.store = .error fault → D.Fails m fault m) :
    D.Keeps m (Action.inspecting f) fun v m' => m' = m ∧ f m.store = .ok v :=
  h.keeps_ofExcept hm hf

/-- Looking at the store may always fail for want of room. -/
theorem keeps_bounded {f : Store → Except Fault α} (hm : D.Good m) (hf : Bounded (f m.store)) :
    D.Keeps m (Action.inspecting f) fun v m' => m' = m ∧ f m.store = .ok v :=
  h.keeps_inspecting hm fun fault hfault => h.exceeded hm (hf fault hfault)

section Lists

variable {post : β → Machine → Prop}

/-- A property of results that lasts holds of all results together. -/
theorem keeps_mapM {F : α → Action β} {items : List α} (hm : D.Good m)
    (hF : ∀ m', D.Step m m' → D.Good m' → ∀ a ∈ items, D.Keeps m' (F a) post)
    (hpost : ∀ {v m m'}, D.Step m m' → post v m → post v m') :
    D.Keeps m (items.mapM F) fun vs m' => ∀ v ∈ vs, post v m' := by
  induction items generalizing m with
  | nil => exact h.keeps_pure hm (by simp)
  | cons a items ih =>
    rw [List.mapM_cons]
    refine h.keeps_bind (hF m h.refl hm a List.mem_cons_self) fun v m' hs hm' hv => ?_
    refine h.keeps_bind (ih hm' fun m'' hs' hm'' b hb =>
      hF m'' (h.trans hs hs') hm'' b (List.mem_cons_of_mem _ hb)) fun vs m'' hs' hm'' hvs => ?_
    exact h.keeps_pure hm'' (List.forall_mem_cons.2 ⟨hpost hs' hv, hvs⟩)

/-- What is achieved for each item and lasts is achieved for all items. -/
theorem keeps_forM {F : α → Action Unit} {items : List α} {achieved : α → Machine → Prop}
    (hm : D.Good m)
    (hF : ∀ m', D.Step m m' → D.Good m' → ∀ a ∈ items, D.Keeps m' (F a) fun _ => achieved a)
    (hlast : ∀ {a m m'}, D.Step m m' → achieved a m → achieved a m') :
    D.Keeps m (items.forM F) fun _ m' => ∀ a ∈ items, achieved a m' := by
  induction items generalizing m with
  | nil => exact h.keeps_pure hm (by simp)
  | cons a items ih =>
    rw [List.forM_eq_forM, List.forM_cons]
    refine h.keeps_bind (hF m h.refl hm a List.mem_cons_self) fun _ m' hs hm' ha => ?_
    have hrest : D.Keeps m' (items.forM F) fun _ m'' => ∀ b ∈ items, achieved b m'' :=
      ih hm' fun m'' hs' hm'' b hb =>
        hF m'' (h.trans hs hs') hm'' b (List.mem_cons_of_mem _ hb)
    have hboth := hrest.and (hlast · ha)
    exact hboth.imp fun _ _ _ hp => List.forall_mem_cons.2 ⟨hp.2, hp.1⟩

theorem keeps_foldlM {F : β → α → Action β} {items : List α} {b : β} (hm : D.Good m)
    (hb : post b m)
    (hF : ∀ m', D.Step m m' → D.Good m' → ∀ b, post b m' → ∀ a ∈ items,
      D.Keeps m' (F b a) post) :
    D.Keeps m (items.foldlM F b) post := by
  induction items generalizing m b with
  | nil => exact h.keeps_pure hm hb
  | cons a items ih =>
    rw [List.foldlM_cons]
    refine h.keeps_bind (hF m h.refl hm b hb a List.mem_cons_self) fun c m' hs hm' hc => ?_
    exact ih hm' hc fun m'' hs' hm'' d hd e he =>
      hF m'' (h.trans hs hs') hm'' d hd e (List.mem_cons_of_mem _ he)

end Lists

end Coherent

end Discipline

end Keel
