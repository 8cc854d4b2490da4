import Keel.Proofs.Bytes.Store
import Keel.Proofs.Involvement
import Keel.Proofs.Stream.Basic

/-! # Evaluation of bytes

Names enter a machine by reading, `itoc` and `cat`, and they are handed on by
definitions, bindings and calls. None of this makes a name that is not a text of
bytes out of names that are, so that evaluation writes bytes only, unless `print`
writes all values alike.
-/

namespace Keel

theorem Primitive.characterOf?_eq_some_iff {code : Int} {c : Char} :
    characterOf? code = some c ↔ code = c.toNat ∧ c.toNat < 0x100 := by
  have hcodes : ∀ n < 0x100, (Char.ofNat n).toNat = n := by decide +kernel
  unfold characterOf?
  rw [Option.ite_none_right_eq_some]
  constructor
  · rintro ⟨⟨hlow, hhigh⟩, hc⟩
    obtain rfl := Option.some.inj hc
    rw [hcodes code.toNat (by omega)]
    omega
  · rintro ⟨rfl, hbyte⟩
    refine ⟨by omega, ?_⟩
    rw [Int.toNat_natCast, Char.ofNat_toNat]

theorem Text.ofBytes_toString {c : Char} : Text.OfBytes c.toString ↔ c.toNat < 0x100 := by
  rw [Text.OfBytes, Char.toString, String.toList_singleton]
  simp [Text.allBytes_nil]

structure Machine.OfBytes (m : Machine) : Prop where
  store : m.store.OfBytes
  source : m.source.OfBytes

theorem Machine.OfBytes.with_store {m : Machine} (h : m.OfBytes) {s : Store} (hs : s.OfBytes) :
    Machine.OfBytes { m with store := s } :=
  ⟨hs, h.source⟩

/-- Pieces have been written, each of which is a text of bytes or one of those that may be said. -/
def Machine.Writes (Said : String → Prop) (m m' : Machine) : Prop :=
  ∃ pieces : List String, m'.output = m.output ++ String.join pieces ∧
    ∀ piece ∈ pieces, Text.OfBytes piece ∨ Said piece

namespace Machine.Writes

variable {Said : String → Prop} {m m' m'' : Machine}

theorem of_output_eq (h : m'.output = m.output) : m.Writes Said m' :=
  ⟨[], by simp [h], by simp⟩

theorem single {text : String} (h : m'.output = m.output ++ text)
    (ht : Text.OfBytes text ∨ Said text) : m.Writes Said m' :=
  ⟨[text], by simp [h], by simpa using ht⟩

theorem trans (h : m.Writes Said m') (h' : m'.Writes Said m'') : m.Writes Said m'' := by
  obtain ⟨pieces, heq, hpieces⟩ := h
  obtain ⟨pieces', heq', hpieces'⟩ := h'
  refine ⟨pieces ++ pieces', ?_, fun piece hmem => ?_⟩
  · rw [heq', heq, String.join_append, String.append_assoc]
  · exact (List.mem_append.1 hmem).elim (hpieces piece) (hpieces' piece)

theorem exists_text (h : m.Writes Said m') (hsaid : ∀ s, Said s → Text.OfBytes s) :
    ∃ text, Text.OfBytes text ∧ m'.output = m.output ++ text := by
  obtain ⟨pieces, heq, hpieces⟩ := h
  refine ⟨String.join pieces, fun c hc => ?_, heq⟩
  rw [String.toList_join] at hc
  obtain ⟨piece, hmem, hc⟩ := List.mem_flatMap.1 hc
  exact (hpieces piece hmem).elim id (hsaid piece) c hc

end Machine.Writes

namespace Discipline

/-- Names are texts of bytes, and nothing is written but bytes and what may be said. -/
def bytes (Said : String → Prop) : Discipline where
  Good m := m.OfBytes
  Step m m' := m.Writes Said m'
  Fails m _ m' := m.Writes Said m' ∧ m'.OfBytes
  Scope _ _ := True
  Own _ _ := True
  Code v _ := v.OfBytes
  Val v _ := v.OfBytes

namespace bytes

variable {Said : String → Prop} {m : Machine} {style : Style} {α : Type}

/-- What changes the store only keeps the discipline if the names in the store are bytes then. -/
theorem keeps_updating {g : Store → α × Store} {post : α → Machine → Prop} (hm : m.OfBytes)
    (hs : (g m.store).2.OfBytes) (hp : post (g m.store).1 { m with store := (g m.store).2 }) :
    (bytes Said).Keeps m (Action.updating g) post :=
  Discipline.keeps_updating rfl (.of_output_eq rfl) (hm.with_store hs) hp

theorem fails_refl (hm : m.OfBytes) {fault : Fault} : (bytes Said).Fails m fault m :=
  ⟨.of_output_eq rfl, hm⟩

theorem coherent : (bytes Said).Coherent where
  refl := .of_output_eq rfl
  trans := .trans
  fails_trans hs hf := ⟨hs.trans hf.1, hf.2⟩
  misuse hm := fails_refl hm
  exceeded hm _ := fails_refl hm

theorem primitives (hstyle : style = .plain ∨ style = .debug) :
    (bytes Said).Primitives style where
  nextChar {m} hm :=
    ⟨.of_output_eq rfl, ⟨hm.store, hm.source.of_advancesTo m.source.advancesTo_next⟩, trivial⟩
  write {m limit v text} hm hv ht := by
    have htext := GivesBytes.write (fun _ _ => hm.store.closureName) hstyle hv limit text ht
    exact ⟨.single rfl (.inl htext), ⟨hm.store, hm.source⟩, trivial⟩
  newList hm hi :=
    keeps_updating hm (hm.store.of_eq rfl rfl rfl) (Value.ofBytes_listTo _ hi trivial)
  newPair hm hcar hcdr := keeps_updating hm (hm.store.of_eq rfl rfl rfl) ⟨hcar, hcdr⟩
  val_int := trivial
  val_bool := trivial
  val_ok {_} := show Text.OfBytes "ok" by decide
  val_itoc hc := Text.ofBytes_toString.2 (Primitive.characterOf?_eq_some_iff.1 hc).2
  val_cat ha hb := Text.ofBytes_append.2 ⟨ha, hb⟩
  val_car hv := hv.1
  val_cdr hv := hv.2

theorem keeps_define {f : FrameId} {name : String} {v : Value} (hm : m.OfBytes)
    (hname : Text.OfBytes name) (hv : v.OfBytes) :
    (bytes Said).Keeps m (Action.define f name v) fun _ _ => True :=
  coherent.keeps_discard (keeps_updating hm (hm.store.define hname hv f) trivial)

theorem keeps_setCell {c : CellId} {v : Value} (hm : m.OfBytes) (hv : v.OfBytes) :
    (bytes Said).Keeps m (Action.updating fun s => ((), s.setCell c v)) fun _ _ => True :=
  keeps_updating hm (hm.store.setCell hv c) trivial

theorem regular (hstyle : style = .plain ∨ style = .debug) : (bytes Said).Regular style where
  toCoherent := coherent
  primitives := primitives hstyle
  scope_mono _ _ := trivial
  own_mono _ _ := trivial
  code_mono _ hv := hv
  val_mono _ hv := hv
  scope_of_own := id
  captured_of_scope := id
  code_car hv := hv.1
  code_cdr hv := hv.2
  val_of_code hv := hv
  val_nil := trivial
  lookup hm _ _ := by
    refine (coherent.keeps_inspecting hm fun _ _ => fails_refl hm).imp ?_
    rintro v _ - ⟨rfl, hv⟩
    exact hm.store.of_lookup_eq_ok hv
  newFrame hm _ := keeps_updating hm (hm.store.newFrame _) trivial
  bind hm _ hname hv := keeps_define hm hname hv
  define hm _ _ hname hv := keeps_define hm hname hv
  assign hm _ _ _ hv := keeps_assign (fun _ _ => keeps_setCell hm hv) (fails_refl hm)
  newClosure hm _ hformals _ _ hbody hname :=
    keeps_updating hm (hm.store.newClosure ⟨hformals, hbody, hname _⟩) trivial
  named {_ v _} hm hv hname :=
    keeps_named (.of_output_eq rfl) (hm.with_store (hm.store.nameClosure hname v)) hv
  record hm _ hc :=
    ⟨trivial, fun _ hname => (hm.store.closures hc).formals _ hname, (hm.store.closures hc).body⟩

theorem steady (hstyle : style = .plain ∨ style = .debug) : (bytes Said).Steady style where
  toRegular := regular hstyle
  letRecFrame {ev m f bindings} hev hm _ hb := by
    have hdeclare : (bytes Said).Keeps m (Form.declareFrame f bindings) fun p _ =>
        True ∧ ∀ c ∈ p.2, True :=
      keeps_declareFrame bindings (P := Store.OfBytes) (hm.store.newFrame _)
        (fun s b hmem hs => hs.declare (hb b hmem).1 _)
        fun s hs => ⟨.of_output_eq rfl, hm.with_store hs, trivial, fun _ _ => trivial⟩
    exact (regular hstyle).keeps_letRecFrame hev hb hdeclare fun hm' _ hv => keeps_setCell hm' hv

/-- Not every failure is allowed for: none leaves a source that is not one of bytes. -/
theorem exists_not_fails (Said : String → Prop) :
    ∃ (mark : Fault) (m' : Machine), ∀ m, ¬ (bytes Said).Fails m mark m' := by
  refine ⟨.tooDeep, ⟨Store.empty, .ofString "Ā", ""⟩, fun m hf => ?_⟩
  have hsource : Text.AllBytes "Ā".toList := hf.2.source
  exact absurd hsource (by decide)

end bytes

end Discipline

/-! ## Characters that are read -/

theorem Primitive.call_getchar (style : Style) (limit : Nat) (m : Machine) :
    getchar.call style limit [] m =
      .ok (.int (m.source.unread.head?.elim (-1) fun c => (c.toNat : Int)))
        { m with source := m.source.next.2 } := by
  have hnext : Action.nextChar m =
      .ok m.source.unread.head? { m with source := m.source.next.2 } := by
    rw [← Source.next_fst]
    rfl
  refine (bind_of_eq_ok hnext).trans ?_
  cases m.source.unread.head? <;> rfl

theorem Primitive.exists_int_of_getchar {style : Style} {limit : Nat} {args : List Value}
    {m m' : Machine} {v : Value} (hm : m.source.OfBytes)
    (h : getchar.call style limit args m = .ok v m') : ∃ i : Int, v = .int i ∧ -1 ≤ i ∧ i ≤ 255 := by
  cases args with
  | cons arg args => exact nomatch h
  | nil =>
    rw [call_getchar] at h
    obtain ⟨rfl, -⟩ := EStateM.Result.ok.inj h
    refine ⟨_, rfl, ?_⟩
    cases hhead : m.source.unread.head? with
    | none => decide
    | some c =>
      have hc := hm c (List.mem_of_mem_head? hhead)
      simp only [Option.elim_some]
      omega

/-! ## Evaluations that take place -/

structure Evaluation.OfBytes (e : Evaluation) : Prop where
  machine : e.machine.OfBytes
  expr : e.expr.OfBytes

namespace Evaluation.OfBytes

variable {style : Style} {e p : Evaluation} (hstyle : style = .plain ∨ style = .debug)
include hstyle

theorem keeps (h : e.OfBytes) (Said : String → Prop) : (Discipline.bytes Said).Keeps e.machine
    (evaluate style e.limit e.frame e.expr) fun v _ => v.OfBytes :=
  (Discipline.bytes.steady hstyle).lawful.evaluate e.limit h.machine trivial h.expr

theorem of_involves (h : e.OfBytes) (hp : e.Involves style p) : p.OfBytes := by
  obtain ⟨mark, m', hmark⟩ := Discipline.bytes.exists_not_fails fun _ => False
  have hadmits := (Discipline.bytes.steady hstyle).admits_of_involves (fun m _ => hmark m)
    ⟨h.machine, trivial, h.expr⟩ hp
  exact ⟨hadmits.good, hadmits.code⟩

theorem after (h : e.OfBytes) : (e.after style).OfBytes ∧
    ∃ text, Text.OfBytes text ∧ (e.after style).output = e.machine.output ++ text := by
  have hafter : (e.after style).OfBytes ∧ e.machine.Writes (fun _ => False) (e.after style) :=
    (h.keeps hstyle fun _ => False).after
      (P := fun m' => m'.OfBytes ∧ e.machine.Writes (fun _ => False) m')
      (fun _ hs hm' => ⟨hm', hs⟩) fun _ _ hf => hf.symm
  exact ⟨hafter.1, hafter.2.exists_text nofun⟩

theorem value (h : e.OfBytes) {v : Value} {m' : Machine} (hv : e.outcome style = .ok v m') :
    v.OfBytes :=
  ((h.keeps hstyle fun _ => False).of_eq_ok hv).2.2

/-- Where `getchar` is called, it returns the code of a byte or a negative number. -/
theorem exists_int_of_calls (h : e.OfBytes) {id : Identity} {args : List Value} {v : Value}
    {m₁ m' : Machine} (hcall : e.Calls style (.primitive id .getchar) args m₁)
    (hv : e.outcome style = .ok v m') : ∃ i : Int, v = .int i ∧ -1 ≤ i ∧ i ≤ 255 := by
  have hlawful : (Discipline.bytes fun _ => False).Lawful style :=
    (Discipline.bytes.steady hstyle).lawful
  obtain ⟨hm₁, -, -⟩ := hlawful.good_of_calls ⟨h.machine, trivial, h.expr⟩ hcall
  obtain ⟨limit, -, heq⟩ := hcall.outcome_eq
  exact Primitive.exists_int_of_getchar hm₁.source (heq ▸ hv)

end Evaluation.OfBytes

end Keel
