import Keel.Proofs.Consumption
import Keel.Proofs.Nesting

/-! # What the reader refuses

A text that is no datum is malformed, unless it was given up before: for a bracket
or a quote mark too many, or for a numeral with too many digits. So each refusal
has its reason in the text.
-/

namespace Keel

open Grammar

def Grammar.LongNumeral (w : List Char) : Prop :=
  ∃ cs, (w = cs ∨ w = '-' :: cs) ∧ (∀ c ∈ cs, c.isDigit = true) ∧ Numeral.maxDigits < cs.length

theorem Token.longNumeral_of_ofChars {w : List Char} {line : Int}
    (h : ofChars w line = .error .tooLong) : LongNumeral w := by
  have hnumeral : Numeral.isNumeral w = true := by
    by_contra hnot
    unfold ofChars at h
    rw [if_neg hnot] at h
    repeat' split at h
    all_goals cases h
  have hlong : ¬ (Numeral.digits w).length ≤ Numeral.maxDigits := by
    intro hle
    unfold ofChars at h
    rw [if_pos hnumeral, if_pos hle] at h
    cases h
  refine ⟨Numeral.digits w, ?_, (Numeral.isNumeral_iff.1 hnumeral).2, Nat.lt_of_not_le hlong⟩
  rcases Numeral.sign_cases w with ⟨cs, hw, hdigits, -⟩ | ⟨-, hdigits, -⟩
  · exact .inr (hdigits ▸ hw)
  · exact .inl hdigits.symm

namespace Datum

variable {limit : Nat} {stack : List Opening} {s s' : Source}

/-- Reading stopped behind a numeral with too many digits. -/
def StopsAtNumeral (s s' : Source) : Prop :=
  ∃ w, LongNumeral w ∧ IsToken w s'.unread ∧ w ++ s'.unread <:+ s.unread

theorem stopsAtNumeral_of_advance (h : advance limit stack s = .failed .tooLong s') :
    StopsAtNumeral s s' := by
  cases s.shows with
  | nothing hs _ =>
    rw [advance_end hs] at h
    rcases atEnd_eq_failed h with ⟨hend, -⟩ | ⟨_, hmalformed⟩
    · exact nomatch hend
    · exact nomatch hmalformed
  | opening hs _ =>
    rw [advance_open hs] at h
    exact nomatch (opening_eq_failed_iff.1 h).2.1
  | closing hs _ =>
    rw [advance_close hs] at h
    obtain ⟨_, hmalformed⟩ := atClose_eq_failed h
    exact nomatch hmalformed
  | quoting hs _ =>
    rw [advance_quote hs] at h
    exact nomatch (opening_eq_failed_iff.1 h).2.1
  | @token c cs line hc hs hb =>
    rw [advance_token hs hc] at h
    simp only [Progress.atToken] at h
    split at h
    · obtain ⟨_, hmalformed⟩ := deliver_eq_failed h
      exact nomatch hmalformed
    · obtain ⟨_, hmalformed⟩ := atDot_eq_failed h
      exact nomatch hmalformed
    · next hlong =>
      obtain ⟨rfl, rfl⟩ : _ = Fault.tooLong ∧ _ = s' := by simpa using h
      refine ⟨_, Token.longNumeral_of_ofChars hlong, Source.isToken_token rfl hc, ?_⟩
      rw [Source.unread_token]
      exact hb.suffix

theorem stopsAtNumeral_of_resume (h : resume limit stack s = (.error .tooLong, s')) :
    StopsAtNumeral s s' := by
  fun_induction resume limit stack s with
  | case1 stack s stack' t ha ih =>
    obtain ⟨w, hlong, htoken, hsuffix⟩ := ih h
    have hadvances := advancesTo_advance limit stack s
    rw [ha] at hadvances
    exact ⟨w, hlong, htoken, hsuffix.trans hadvances.suffix⟩
  | case2 => simp at h
  | case3 stack s fault t ha =>
    obtain ⟨rfl, rfl⟩ : fault = .tooLong ∧ t = s' := by simpa using h
    exact stopsAtNumeral_of_advance ha

/-- The reader accepts exactly the data of the grammar behind a blank, with no more lists and
quotes open at once than the limit admits, and leaves exactly what follows. It announces the
end of the input exactly for a text that is blank, and it refuses every other text: as malformed on
the line that has been reached, unless it has met a nesting beyond the limit or a numeral with too
many digits. -/
theorem read_iff_denotes (limit : Nat) (s : Source) :
    (∀ d r, (∃ after, read limit s = (.ok d, after) ∧ after.unread = r) ↔
      ∃ b w, s.unread = b ++ (w ++ r) ∧ Blank s.unread (w ++ r) ∧ Denotes limit (w ++ r) r d) ∧
    ((∃ after, read limit s = (.error .endOfInput, after)) ↔ Blank s.unread []) ∧
    ∀ fault after, read limit s = (.error fault, after) →
      fault = .endOfInput ∨ (∃ cause, fault = .malformed after.line cause) ∨
        (fault = .tooDeep ∧ limit < Text.nesting s.unread) ∨
        fault = .tooLong ∧ StopsAtNumeral s after := by
  refine ⟨fun d r => ⟨?_, ?_⟩, ⟨fun ⟨after, h⟩ => blank_of_read h, resume_blank⟩, ?_⟩
  · rintro ⟨after, h, rfl⟩
    obtain ⟨t, hb, hd⟩ := exists_denotes_of_read h
    obtain ⟨b, hb'⟩ := hb.suffix
    obtain ⟨w, -, rfl⟩ := hd.eq_append
    exact ⟨b, w, hb'.symm, hb, hd⟩
  · rintro ⟨b, w, -, hb, hd⟩
    exact read_of_denotes hb hd
  · intro fault after h
    rcases resume_eq_error h with ⟨hend, -⟩ | rfl | rfl | hmalformed
    · exact .inl hend
    · exact .inr (.inr (.inl ⟨rfl, lt_ahead_of_resume h⟩))
    · exact .inr (.inr (.inr ⟨rfl, stopsAtNumeral_of_resume h⟩))
    · exact .inr (.inl hmalformed)

end Datum

end Keel
