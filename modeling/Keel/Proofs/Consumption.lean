import Keel.Datum.Reader
import Keel.Proofs.Scanning

/-! # What reading consumes

A source is only ever consumed from its front, and every newline that is consumed
is counted: what is unread afterwards is a suffix of what was unread before, and
the number of the line together with the newlines still to come is the same.
Whatever the reader does, and whether or not it succeeds, the source advances in
this way.
-/

namespace Keel

namespace Source

/-- The source has been read on from its front, and its lines have been counted. -/
structure AdvancesTo (s s' : Source) : Prop where
  suffix : s'.unread <:+ s.unread
  lines : s'.line + s'.unread.count '\n' = s.line + s.unread.count '\n'

theorem AdvancesTo.refl (s : Source) : s.AdvancesTo s :=
  ⟨List.suffix_refl _, rfl⟩

theorem AdvancesTo.trans {s s' s'' : Source} (h : s.AdvancesTo s') (h' : s'.AdvancesTo s'') :
    s.AdvancesTo s'' :=
  ⟨h'.suffix.trans h.suffix, h'.lines.trans h.lines⟩

theorem AdvancesTo.of_eq {s s' : Source} (hu : s'.unread = s.unread) (hl : s'.line = s.line) :
    s.AdvancesTo s' where
  suffix := hu ▸ List.suffix_refl _
  lines := by rw [hu, hl]

theorem lineAfter_add_count (line : Int) (c : Char) (cs : List Char) :
    lineAfter line c + cs.count '\n' = line + (c :: cs).count '\n' := by
  rw [lineAfter, List.count_cons]
  by_cases hc : c = '\n'
  · simp only [hc, beq_self_eq_true, if_true]
    omega
  · simp [hc]

theorem advancesTo_next (s : Source) : s.AdvancesTo s.next.2 := by
  cases hu : s.unread with
  | nil =>
    rw [next_of_unread_eq_nil hu]
    exact .refl s
  | cons c cs =>
    rw [next_of_unread_eq_cons hu]
    constructor
    · rw [hu]
      exact List.suffix_cons c cs
    · rw [hu]
      exact lineAfter_add_count s.line c cs

theorem count_dropBlanks (b : Bool) (cs : List Char) (line : Int) :
    (dropBlanks b cs line).2 + (dropBlanks b cs line).1.count '\n' = line + cs.count '\n' := by
  fun_induction dropBlanks b cs line with
  | case1 => rfl
  | case2 cs line ih =>
    rw [ih, List.count_cons_self]
    push_cast
    omega
  | case3 c cs line hc ih => rw [ih, List.count_cons_of_ne hc]
  | case4 cs line ih => rw [ih, List.count_cons_of_ne (by decide)]
  | case5 c cs line _ _ ih => rw [ih, lineAfter_add_count]
  | case6 => rfl

theorem advancesTo_skipBlanks (s : Source) : s.AdvancesTo s.skipBlanks where
  suffix := (blank_dropBlanks s.unread s.line).suffix
  lines := count_dropBlanks false s.unread s.line

theorem advancesTo_nextSignificant (s : Source) : s.AdvancesTo s.nextSignificant.2 :=
  s.advancesTo_skipBlanks.trans (advancesTo_next s.skipBlanks)

/-- A newline is a delimiter, so a token lies on one line. -/
theorem count_token (s : Source) : s.token.1.count '\n' = 0 := by
  rw [List.count_eq_zero]
  intro hmem
  have hplain := List.all_eq_true.1
    (List.all_takeWhile (l := s.unread) (p := (!isDelimiter ·))) '\n' hmem
  exact absurd hplain (by decide)

theorem advancesTo_token (s : Source) : s.AdvancesTo s.token.2 := by
  constructor
  · exact ⟨s.token.1, unread_token s⟩
  · have hline : s.token.2.line = s.line := line_fillSlot _
    rw [hline, ← unread_token s, List.count_append, count_token, Nat.zero_add]

theorem count_dropLine (cs : List Char) (line : Int) :
    (dropLine cs line).2 + (dropLine cs line).1.count '\n' = line + cs.count '\n' := by
  fun_induction dropLine cs line with
  | case1 => rfl
  | case2 cs line =>
    rw [List.count_cons_self]
    push_cast
    omega
  | case3 c cs line hc ih => rw [ih, List.count_cons_of_ne hc]

theorem suffix_dropLine (cs : List Char) (line : Int) : (dropLine cs line).1 <:+ cs := by
  fun_induction dropLine cs line with
  | case1 => exact List.suffix_refl _
  | case2 => exact List.suffix_cons _ _
  | case3 c cs line _ ih => exact ih.trans (List.suffix_cons c cs)

theorem advancesTo_skipLine (s : Source) : s.AdvancesTo s.skipLine where
  suffix := suffix_dropLine s.unread s.line
  lines := count_dropLine s.unread s.line

end Source

namespace Datum

namespace Progress

theorem advancesTo_deliver (stack : List Opening) (d : Datum) (s : Source) :
    s.AdvancesTo (deliver stack d s).source := by
  fun_induction deliver stack d s with
  | case1 => exact .refl _
  | case2 => exact .refl _
  | case3 _ _ _ ih => exact ih
  | case4 items stack d s after hs ih =>
    have hn := s.advancesTo_nextSignificant
    rw [hs] at hn
    exact hn.trans ih
  | case5 items stack d s c after _ hs =>
    have hn := s.advancesTo_nextSignificant
    rw [hs] at hn
    exact hn

theorem advancesTo_atClose (stack : List Opening) (s : Source) :
    s.AdvancesTo (atClose stack s).source := by
  fun_cases atClose stack s
  case case1 => exact advancesTo_deliver ..
  all_goals exact .refl _

theorem token_advancesTo_atToken (stack : List Opening) (s : Source) :
    s.token.2.AdvancesTo (atToken stack s).source := by
  simp only [atToken]
  split
  · exact advancesTo_deliver ..
  · rw [source_atDot]
    exact .refl _
  · exact .refl _

theorem advancesTo_atToken (stack : List Opening) (s : Source) :
    s.AdvancesTo (atToken stack s).source :=
  s.advancesTo_token.trans (token_advancesTo_atToken stack s)

end Progress

/-- A step drops the blanks ahead and goes on from there. -/
theorem skipBlanks_advancesTo_advance (limit : Nat) (stack : List Opening) (s : Source) :
    s.skipBlanks.AdvancesTo (advance limit stack s).source := by
  simp only [advance]
  have hn := Source.advancesTo_next s.skipBlanks
  split
  · next after ha =>
    rw [ha] at hn
    rw [Progress.source_atEnd]
    exact hn
  · next c after ha =>
    rw [ha] at hn
    split
    · rw [Progress.source_opening]
      exact hn
    split
    · exact hn.trans (Progress.advancesTo_atClose stack after)
    split
    · rw [Progress.source_opening]
      exact hn
    · exact Progress.advancesTo_atToken stack _

theorem advancesTo_advance (limit : Nat) (stack : List Opening) (s : Source) :
    s.AdvancesTo (advance limit stack s).source :=
  s.advancesTo_skipBlanks.trans (skipBlanks_advancesTo_advance limit stack s)

theorem advancesTo_resume (limit : Nat) (stack : List Opening) (s : Source) :
    s.AdvancesTo (resume limit stack s).2 := by
  fun_induction resume limit stack s with
  | case1 stack s stack' t ha ih =>
    have h := advancesTo_advance limit stack s
    rw [ha] at h
    exact h.trans ih
  | case2 stack s d t ha =>
    have h := advancesTo_advance limit stack s
    rw [ha] at h
    exact h
  | case3 stack s fault t ha =>
    have h := advancesTo_advance limit stack s
    rw [ha] at h
    exact h

theorem advancesTo_read (limit : Nat) (s : Source) : s.AdvancesTo (read limit s).2 :=
  advancesTo_resume limit [] s

theorem length_unread_read_lt (limit : Nat) {s : Source} (h : s.skipBlanks.unread ≠ []) :
    (read limit s).2.unread.length < s.unread.length := by
  obtain ⟨c, cs, hu⟩ := List.exists_cons_of_ne_nil h
  have hlt := length_advance_lt limit [] (Source.next_of_unread_eq_cons hu)
  rw [read, resume]
  split
  · next stack' s' ha =>
    rw [ha] at hlt
    exact Nat.lt_of_le_of_lt (advancesTo_resume limit stack' s').suffix.length_le hlt
  · next ha =>
    rw [ha] at hlt
    exact hlt
  · next ha =>
    rw [ha] at hlt
    exact hlt

end Datum

end Keel
