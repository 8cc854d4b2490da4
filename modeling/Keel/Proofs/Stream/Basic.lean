import Keel.Datum.Token

/-! # Sources as plain texts

A source behaves as the list of its unread characters. Reading takes the first of
them, looking ahead leaves them all, and a character that was just read can
always be put back. So the slot is never taken where the reader needs it: a token
that is read one character at a time, with the delimiter behind it put back, is
the token that lies ahead.
-/

namespace Keel.Source

variable {s t : Source} {c : Char}

@[simp] theorem next_fst (s : Source) : s.next.1 = s.unread.head? := by
  cases hu : s.unread with
  | nil => rw [next_of_unread_eq_nil hu, List.head?_nil]
  | cons c cs => rw [next_of_unread_eq_cons hu, List.head?_cons]

@[simp] theorem unread_next (s : Source) : s.next.2.unread = s.unread.tail := by
  cases hu : s.unread with
  | nil => rw [next_of_unread_eq_nil hu, hu, List.tail_nil]
  | cons c cs => rw [next_of_unread_eq_cons hu, unread_mk_none, List.tail_cons]

@[simp] theorem peek_fst (s : Source) : s.peek.1 = s.unread.head? := by
  rcases s with ⟨_ | c, _ | ⟨d, rest⟩, line⟩ <;> rfl

theorem dropLine_fst (cs : List Char) (line : Int) :
    (dropLine cs line).1 = (cs.dropWhile (· ≠ '\n')).tail := by
  fun_induction dropLine cs line with
  | case1 => rfl
  | case2 => simp
  | case3 c cs line hc ih => simp [ih, hc]

@[simp] theorem unread_skipLine (s : Source) :
    s.skipLine.unread = (s.unread.dropWhile (· ≠ '\n')).tail :=
  dropLine_fst s.unread s.line

theorem unread_of_putBack (h : s.putBack c = .ok t) : t.unread = c :: s.unread := by
  rcases s with ⟨_ | held, rest, line⟩
  · obtain rfl := Except.ok.inj h
    rfl
  · exact nomatch h

theorem line_of_putBack (h : s.putBack c = .ok t) :
    t.line + t.unread.count '\n' = s.line + s.unread.count '\n' := by
  rw [unread_of_putBack h]
  rcases s with ⟨_ | held, rest, line⟩
  · obtain rfl := Except.ok.inj h
    rw [unread_mk_none, List.count_cons]
    by_cases hc : c = '\n'
    · simp only [hc, if_true, beq_self_eq_true]
      omega
    · simp [hc]
  · exact nomatch h

theorem putBack_of_slot_eq_none (h : s.slot = none) : ∃ t, s.putBack c = .ok t := by
  rcases s with ⟨_ | held, rest, line⟩
  · exact ⟨_, rfl⟩
  · exact nomatch h

theorem putBack_of_slot_eq_some {held : Char} (h : s.slot = some held) :
    s.putBack c = .error held := by
  rcases s with ⟨_ | d, rest, line⟩
  · exact nomatch h
  · rw [← Option.some.inj h]
    rfl

/-- To read a character and put it back is to look at it. -/
theorem putBack_of_next (h : s.next = (some c, t)) : t.putBack c = .ok s.peek.2 := by
  have hline : ∀ line, (if c = '\n' then lineAfter line c - 1 else lineAfter line c) = line := by
    intro line
    unfold lineAfter
    split <;> omega
  rcases s with ⟨_ | d, _ | ⟨e, rest⟩, line⟩
  case none.nil => exact nomatch h
  all_goals
    simp only [next, Prod.mk.injEq, Option.some.injEq] at h
    obtain ⟨rfl, rfl⟩ := h
    simp only [putBack, peek, fillSlot, hline]

/-! ## Tokens by single characters -/

/-- The token ahead, read one character at a time; the delimiter behind it is put back. -/
def takeToken (s : Source) : Except Char (List Char × Source) :=
  match _h : s.next with
  | (none, t) => .ok ([], t)
  | (some c, t) =>
    if isDelimiter c then (t.putBack c).map ([], ·)
    else t.takeToken.map fun (cs, after) => (c :: cs, after)
termination_by s.unread.length
decreasing_by
  have := length_unread_of_next _h
  omega

theorem token_of_unread_eq_nil (h : s.unread = []) : s.token = ([], s) := by
  rcases s with ⟨_ | d, _ | ⟨e, rest⟩, line⟩
  case none.nil => rfl
  all_goals exact nomatch h

theorem token_of_isDelimiter (h : s.next = (some c, t)) (hc : isDelimiter c = true) :
    s.token = ([], s.peek.2) := by
  rcases s with ⟨_ | d, _ | ⟨e, rest⟩, line⟩
  case none.nil => exact nomatch h
  all_goals
    simp only [next, Prod.mk.injEq, Option.some.injEq] at h
    obtain ⟨rfl, -⟩ := h
    simp [token, peek, fillSlot, unread, hc]

theorem token_of_not_isDelimiter (h : s.next = (some c, t)) (hc : isDelimiter c = false) :
    s.token = (c :: t.token.1, t.token.2) := by
  obtain ⟨rest, hu⟩ := exists_unread_eq_cons h
  obtain ⟨-, rfl⟩ := Prod.mk.inj ((next_of_unread_eq_cons hu).symm.trans h)
  have hline : lineAfter s.line c = s.line := by
    unfold lineAfter
    split
    · next hn => exact absurd hc (by rw [hn]; decide)
    · rfl
  simp [token, hu, hc, hline]

/-- No character is refused when a token is read, and it is the token ahead. -/
theorem takeToken_eq (s : Source) : s.takeToken = .ok s.token := by
  fun_induction takeToken s with
  | case1 s t h =>
    have hu : s.unread = [] := next_eq_none_iff.1 (by rw [h])
    obtain ⟨-, rfl⟩ := Prod.mk.inj ((next_of_unread_eq_nil hu).symm.trans h)
    rw [token_of_unread_eq_nil hu]
  | case2 s c t h hc =>
    rw [putBack_of_next h, token_of_isDelimiter h hc]
    rfl
  | case3 s c t h hc ih =>
    rw [ih, token_of_not_isDelimiter h (by simpa using hc)]
    rfl

end Keel.Source
