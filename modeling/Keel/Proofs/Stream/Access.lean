import Keel.Proofs.Reading
import Keel.Proofs.Stream.Basic
import Keel.Proofs.Stream.Evaluation

/-! # Using a source in any order

The reader, programs and the loop of a session share one source, and nothing
prescribes in which order they use it. However they do, each use shows on the
unread characters as it would on a list, and the line together with the newlines
still unread is always the same number.
-/

namespace Keel

inductive Access where
  | read
  | peek
  /-- Puts a character back; no character stands for the end of the input. -/
  | putBack (c : Option Char)
  | skipLine
  /-- Reads a datum. -/
  | datum (limit : Nat)
  /-- Evaluates an expression, which may read characters. -/
  | evaluation (style : Style) (limit : Nat) (frame : FrameId) (expr : Value)

namespace Access

inductive Answer where
  | char (c : Option Char)
  | nothing
  | datum (d : Datum)
  | value (v : Value)

def act : Access → Action Answer
  | .read => fun m => .ok (.char m.source.next.1) { m with source := m.source.next.2 }
  | .peek => fun m => .ok (.char m.source.peek.1) { m with source := m.source.peek.2 }
  | .putBack none => pure .nothing
  | .putBack (some c) => fun m =>
    match m.source.putBack c with
    | .ok source => .ok .nothing { m with source }
    | .error held => .error (.slotTaken held c) m
  | .skipLine => fun m => .ok .nothing { m with source := m.source.skipLine }
  | .datum limit => fun m =>
    match Datum.read limit m.source with
    | (.ok d, source) => .ok (.datum d) { m with source }
    | (.error fault, source) => .error fault { m with source }
  | .evaluation style limit frame expr => return .value (← evaluate style limit frame expr)

end Access

/-- What is left of the machine after its source has been used, successfully or not. -/
def Machine.afterAccesses (m : Machine) (accesses : List Access) : Machine :=
  accesses.foldl (fun m access => access.act.after m) m

variable {m : Machine} {text : List Char}

/-! ## One use -/

theorem Access.evaluation_after (style : Style) (limit : Nat) (m : Machine) (f : FrameId)
    (expr : Value) : (Access.evaluation style limit f expr).act.after m =
      (evaluate style limit f expr).after m := by
  have hact : (Access.evaluation style limit f expr).act =
      (do return .value (← evaluate style limit f expr)) := rfl
  unfold Action.after
  rw [hact]
  cases hev : evaluate style limit f expr m with
  | ok v m' =>
    rw [bind_of_eq_ok hev]
    rfl
  | error fault m' => rw [bind_of_eq_error hev]

theorem Access.datum_after (limit : Nat) (m : Machine) :
    ((Access.datum limit).act.after m).source = (Datum.read limit m.source).2 := by
  rcases hr : Datum.read limit m.source with ⟨fault | d, s⟩ <;> simp only [Action.after, act, hr]

/-- A use advances the source, unless it puts a character back. -/
theorem Access.after_cases (access : Access) (m : Machine) :
    m.source.AdvancesTo (access.act.after m).source ∨
      ∃ c, access = .putBack (some c) ∧ m.source.slot = none ∧
        m.source.putBack c = .ok (access.act.after m).source := by
  cases access with
  | read => exact .inl m.source.advancesTo_next
  | peek => exact .inl (.of_eq (Source.unread_fillSlot _) (Source.line_fillSlot _))
  | putBack c =>
    cases c with
    | none => exact .inl (.refl _)
    | some c =>
      cases hslot : m.source.slot with
      | none =>
        obtain ⟨t, ht⟩ := Source.putBack_of_slot_eq_none hslot (c := c)
        refine .inr ⟨c, rfl, rfl, ?_⟩
        simp only [Action.after, act, ht]
      | some held =>
        left
        simp only [Action.after, act, Source.putBack_of_slot_eq_some hslot]
        exact .refl _
  | skipLine => exact .inl m.source.advancesTo_skipLine
  | datum limit =>
    rw [Access.datum_after]
    exact .inl (Datum.advancesTo_read limit m.source)
  | evaluation style limit f expr =>
    rw [Access.evaluation_after]
    exact .inl (advancesTo_evaluate style limit m f expr)

/-- How the uses of a source show on its unread characters. -/
structure Access.Laws (m : Machine) : Prop where
  /-- Reading takes the first character; at the end there is none, and nothing changes. -/
  read : ∃ s, Access.read.act m = .ok (.char m.source.unread.head?) { m with source := s } ∧
    s.unread = m.source.unread.tail ∧ (m.source.unread = [] → s = m.source)
  /-- Looking ahead gives the first character and takes nothing. -/
  peek : ∃ s, Access.peek.act m = .ok (.char m.source.unread.head?) { m with source := s } ∧
    s.unread = m.source.unread ∧ s.line = m.source.line
  /-- Skipping a line drops everything through the first newline. -/
  skipLine : ∃ s, Access.skipLine.act m = .ok .nothing { m with source := s } ∧
    s.unread = (m.source.unread.dropWhile (· ≠ '\n')).tail
  /-- A character is put back before the others if the slot is free. -/
  putBack : ∀ c, m.source.slot = none → ∃ s,
    (Access.putBack (some c)).act m = .ok .nothing { m with source := s } ∧
      s.unread = c :: m.source.unread
  /-- If the slot is taken, the character is refused and nothing changes. -/
  refused : ∀ c held, m.source.slot = some held →
    (Access.putBack (some c)).act m = .error (.slotTaken held c) m
  /-- To put back the end of the input is to do nothing. -/
  putBackEnd : (Access.putBack none).act m = .ok .nothing m
  /-- Reading a datum leaves a suffix, and it never finds the slot taken: what it puts back is the
  delimiter behind a token, just after having read it. -/
  datum : ∀ limit, ((Access.datum limit).act.after m).source.unread <:+ m.source.unread ∧
    (∀ fault m', (Access.datum limit).act m = .error fault m' →
      ∀ held refused, fault ≠ .slotTaken held refused) ∧ m.source.takeToken = .ok m.source.token

theorem Access.laws (m : Machine) : Access.Laws m where
  read := by
    refine ⟨m.source.next.2, ?_, Source.unread_next _, fun hu => ?_⟩
    · rw [← Source.next_fst]
      rfl
    · rw [Source.next_of_unread_eq_nil hu]
  peek := by
    refine ⟨m.source.peek.2, ?_, Source.unread_fillSlot _, Source.line_fillSlot _⟩
    rw [← Source.peek_fst]
    rfl
  skipLine := ⟨m.source.skipLine, rfl, Source.unread_skipLine _⟩
  putBack c hslot := by
    obtain ⟨t, ht⟩ := Source.putBack_of_slot_eq_none hslot (c := c)
    refine ⟨t, ?_, Source.unread_of_putBack ht⟩
    simp only [act, ht]
  refused c held hslot := by
    simp only [act, Source.putBack_of_slot_eq_some hslot]
  putBackEnd := rfl
  datum limit := by
    refine ⟨?_, ?_, Source.takeToken_eq _⟩
    · rw [Access.datum_after]
      exact (Datum.advancesTo_read limit m.source).suffix
    · intro fault m' h
      simp only [act] at h
      split at h
      · exact nomatch h
      · next fault' s hr =>
        obtain ⟨rfl, -⟩ := EStateM.Result.error.inj h
        exact Datum.ne_slotTaken_of_read hr

/-! ## Any number of uses -/

theorem Access.line_add_count (access : Access) (m : Machine) :
    (access.act.after m).source.line + (access.act.after m).source.unread.count '\n' =
      m.source.line + m.source.unread.count '\n' := by
  rcases access.after_cases m with hadvance | ⟨c, -, -, hput⟩
  · exact hadvance.lines
  · exact Source.line_of_putBack hput

theorem Machine.line_add_count (m : Machine) (accesses : List Access) :
    (m.afterAccesses accesses).source.line + (m.afterAccesses accesses).source.unread.count '\n' =
      m.source.line + m.source.unread.count '\n' := by
  induction accesses generalizing m with
  | nil => rfl
  | cons access accesses ih =>
    calc
      _ = (access.act.after m).source.line + (access.act.after m).source.unread.count '\n' :=
        ih (access.act.after m)
      _ = m.source.line + m.source.unread.count '\n' := access.line_add_count m

/-- Every character that is put back is the one that stands before the unread ones in the text. -/
def Machine.Restores (text : List Char) : Machine → List Access → Prop
  | _, [] => True
  | m, access :: accesses =>
    (∀ c, access = .putBack (some c) → m.source.slot = none → c :: m.source.unread <:+ text) ∧
      Restores text (access.act.after m) accesses

/-- If only what was read is put back, then what is unread remains a suffix of the text. -/
theorem Machine.Restores.suffix {accesses : List Access} (h : m.Restores text accesses)
    (hm : m.source.unread <:+ text) : (m.afterAccesses accesses).source.unread <:+ text := by
  induction accesses generalizing m with
  | nil => exact hm
  | cons access accesses ih =>
    obtain ⟨hfirst, hrest⟩ := h
    refine ih hrest ?_
    rcases access.after_cases m with hadvance | ⟨c, hc, hslot, hput⟩
    · exact hadvance.suffix.trans hm
    · rw [Source.unread_of_putBack hput]
      exact hfirst c hc hslot

theorem Machine.line_of_restores {accesses : List Access}
    (hsource : m.source = Source.ofChars text) (h : m.Restores text accesses) :
    ∃ consumed, text = consumed ++ (m.afterAccesses accesses).source.unread ∧
      (m.afterAccesses accesses).source.line = 1 + consumed.count '\n' := by
  have hunread : m.source.unread = text := by rw [hsource, Source.unread_ofChars]
  have hline : m.source.line = 1 := by rw [hsource]; rfl
  obtain ⟨consumed, hconsumed⟩ := h.suffix (hunread ▸ List.suffix_refl text)
  refine ⟨consumed, hconsumed.symm, ?_⟩
  have hlaw := m.line_add_count accesses
  rw [hunread, hline, ← hconsumed, List.count_append] at hlaw
  push_cast at hlaw
  omega

/-- In whatever order a source is used, by reading, looking ahead, putting back, skipping lines,
reading data and evaluating, every use shows on the unread characters as on a list, and the line
plus the number of unread newlines stays the same. So, on a text of which only characters that were
read are put back, the line is one more than the number of newlines read. -/
theorem accesses_refine_unread :
    (∀ (m : Machine) (accesses : List Access), Access.Laws (m.afterAccesses accesses)) ∧
    (∀ (m : Machine) (accesses : List Access),
      (m.afterAccesses accesses).source.line +
          (m.afterAccesses accesses).source.unread.count '\n' =
        m.source.line + m.source.unread.count '\n') ∧
    ∀ (m : Machine) (text : List Char) (accesses : List Access),
      m.source = Source.ofChars text → m.Restores text accesses →
      ∃ consumed, text = consumed ++ (m.afterAccesses accesses).source.unread ∧
        (m.afterAccesses accesses).source.line = 1 + consumed.count '\n' :=
  ⟨fun m accesses => Access.laws (m.afterAccesses accesses), Machine.line_add_count,
    fun _ _ _ => Machine.line_of_restores⟩

/-- A newline that was read is put back, looked at and read once more. -/
theorem accesses_refine_unread_newline :
    let m : Machine := ⟨.empty, .ofString "a\nb", ""⟩
    let accesses : List Access := [.read, .read, .putBack (some '\n'), .peek, .read]
    m.source = Source.ofChars ['a', '\n', 'b'] ∧ m.Restores ['a', '\n', 'b'] accesses ∧
      (m.afterAccesses accesses).source.unread = ['b'] ∧
      (m.afterAccesses accesses).source.line = 2 := by
  intro m accesses
  have hsource : m.source = Source.ofChars ['a', '\n', 'b'] := by decide
  have hrestores : m.Restores ['a', '\n', 'b'] accesses := by
    refine ⟨nofun, nofun, ?_, nofun, nofun, trivial⟩
    rintro c ⟨⟩ -
    exact ⟨['a'], by decide⟩
  have hunread : (m.afterAccesses accesses).source.unread = ['b'] := by decide
  obtain ⟨consumed, htext, hline⟩ :=
    accesses_refine_unread.2.2 m ['a', '\n', 'b'] accesses hsource hrestores
  rw [hunread] at htext
  obtain rfl : ['a', '\n'] = consumed := List.append_cancel_right htext
  exact ⟨hsource, hrestores, hunread, hline⟩

end Keel
