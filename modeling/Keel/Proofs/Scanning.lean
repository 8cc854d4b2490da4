import Keel.Proofs.Grammar

/-! # Blanks and tokens as they are read

A source skips exactly the longest blank before it, takes exactly the token that
lies ahead, and classifies a token as the grammar does.
-/

namespace Keel

open Grammar

theorem isBlank_ne_semicolon {c : Char} (h : Text.isBlank c = true) : c ≠ ';' := by
  rintro rfl
  exact absurd h (by decide)

namespace Source

theorem dropBlanks_comment {body : List Char} (h : '\n' ∉ body) (t : List Char) (line : Int) :
    dropBlanks true (body ++ '\n' :: t) line = dropBlanks false t (line + 1) := by
  induction body with
  | nil => simp [dropBlanks]
  | cons c body ih =>
    simp only [List.mem_cons, not_or] at h
    simp [dropBlanks, Ne.symm h.1, ih h.2]

theorem dropBlanks_lastComment {body : List Char} (h : '\n' ∉ body) (line : Int) :
    dropBlanks true body line = ([], line) := by
  induction body with
  | nil => rfl
  | cons c body ih =>
    simp only [List.mem_cons, not_or] at h
    simp [dropBlanks, Ne.symm h.1, ih h.2]

theorem dropBlanks_of_significant {r : List Char} (h : Significant r) (line : Int) :
    dropBlanks false r line = (r, line) := by
  cases r with
  | nil => rfl
  | cons c cs =>
    obtain ⟨hb, hc⟩ := h c rfl
    simp [dropBlanks, hb, hc]

theorem dropBlanks_of_blank {t r : List Char} (h : Blank t r) (hr : Significant r) (line : Int) :
    ∃ line', dropBlanks false t line = (r, line') := by
  induction h generalizing line with
  | nil r => exact ⟨line, dropBlanks_of_significant hr line⟩
  | @space c t r hc _ ih =>
    obtain ⟨line', h⟩ := ih hr (lineAfter line c)
    exact ⟨line', by simpa [dropBlanks, hc, isBlank_ne_semicolon hc] using h⟩
  | @comment body t r hn _ ih =>
    obtain ⟨line', h⟩ := ih hr (line + 1)
    exact ⟨line', by simpa [dropBlanks, dropBlanks_comment hn] using h⟩
  | @lastComment body hn => exact ⟨line, by simp [dropBlanks, dropBlanks_lastComment hn]⟩

/-- What is skipped is blank; inside a comment, together with the comment so far. -/
theorem blank_dropBlanks_aux (b : Bool) (t : List Char) (line : Int) :
    if b then ∀ body, '\n' ∉ body → Blank (';' :: (body ++ t)) (dropBlanks b t line).1
    else Blank t (dropBlanks b t line).1 := by
  fun_induction dropBlanks b t line with
  | case1 b line =>
    cases b with
    | false => exact .nil []
    | true =>
      intro body hn
      rw [List.append_nil]
      exact .lastComment hn
  | case2 cs line ih =>
    intro body hn
    exact .comment hn ih
  | case3 c cs line hc ih =>
    intro body hn
    simpa using ih (body ++ [c]) (by simpa using ⟨hn, Ne.symm hc⟩)
  | case4 cs line ih => simpa using ih [] (by simp)
  | case5 c cs line hc hb ih => exact .space hb ih
  | case6 c cs line hc hb => exact .nil _

theorem blank_dropBlanks (t : List Char) (line : Int) : Blank t (dropBlanks false t line).1 :=
  blank_dropBlanks_aux false t line

theorem significant_dropBlanks (t : List Char) (line : Int) :
    Significant (dropBlanks false t line).1 := by
  intro c hc
  obtain ⟨cs, h⟩ := List.head?_eq_some_iff.1 hc
  exact head_dropBlanks (Prod.ext h rfl : dropBlanks false t line = (c :: cs, _))

theorem skipBlanks_of_blank {s : Source} {r : List Char} (h : Blank s.unread r)
    (hr : Significant r) : ∃ line, s.skipBlanks = ⟨none, r, line⟩ := by
  obtain ⟨line, h⟩ := dropBlanks_of_blank h hr s.line
  exact ⟨line, by rw [skipBlanks, h]⟩

theorem exists_skipBlanks (s : Source) :
    ∃ r line, s.skipBlanks = ⟨none, r, line⟩ ∧ Blank s.unread r ∧ Significant r :=
  ⟨_, _, rfl, blank_dropBlanks s.unread s.line, significant_dropBlanks s.unread s.line⟩

inductive Shows (s : Source) : Prop where
  | nothing {line : Int} :
      s.skipBlanks = ⟨none, [], line⟩ → Blank s.unread [] → Shows s
  | opening {cs : List Char} {line : Int} :
      s.skipBlanks = ⟨none, '(' :: cs, line⟩ → Blank s.unread ('(' :: cs) → Shows s
  | closing {cs : List Char} {line : Int} :
      s.skipBlanks = ⟨none, ')' :: cs, line⟩ → Blank s.unread (')' :: cs) → Shows s
  | quoting {cs : List Char} {line : Int} :
      s.skipBlanks = ⟨none, '\'' :: cs, line⟩ → Blank s.unread ('\'' :: cs) → Shows s
  | token {c : Char} {cs : List Char} {line : Int} : isDelimiter c = false →
      s.skipBlanks = ⟨none, c :: cs, line⟩ → Blank s.unread (c :: cs) → Shows s

theorem shows (s : Source) : s.Shows := by
  obtain ⟨r, line, hs, hb, hr⟩ := s.exists_skipBlanks
  cases r with
  | nil => exact .nothing hs hb
  | cons c cs =>
    obtain ⟨hblank, hsemi⟩ := hr c rfl
    by_cases hopen : c = '('
    · subst hopen
      exact .opening hs hb
    by_cases hclose : c = ')'
    · subst hclose
      exact .closing hs hb
    by_cases hquote : c = '\''
    · subst hquote
      exact .quoting hs hb
    · exact .token (by simp [isDelimiter, hblank, hsemi, hopen, hclose, hquote]) hs hb

theorem token_of_isToken {s : Source} {w r : List Char} (hw : IsToken w r)
    (hs : s.unread = w ++ r) : s.token.1 = w ∧ s.token.2.unread = r := by
  have ht : s.unread.takeWhile (!isDelimiter ·) = w ∧ s.unread.dropWhile (!isDelimiter ·) = r := by
    have hp : ∀ c ∈ w, (!isDelimiter c) = true := fun c hc => by simp [hw.plain c hc]
    rw [hs, List.takeWhile_append_of_pos hp, List.dropWhile_append_of_pos hp]
    cases r with
    | nil => simp
    | cons c cs => simp [hw.delimited c rfl]
  simpa [token] using ht

theorem isToken_token {s : Source} {c : Char} {cs : List Char} (hs : s.unread = c :: cs)
    (hc : isDelimiter c = false) : IsToken s.token.1 s.token.2.unread where
  ne_nil := by simp [token, hs, hc]
  plain d hd := by
    have := List.all_eq_true.1 (List.all_takeWhile (l := s.unread) (p := (!isDelimiter ·))) d hd
    simpa using this
  delimited d hd := by
    have := List.head?_dropWhile_not (!isDelimiter ·) s.unread
    have hd : (s.unread.dropWhile (!isDelimiter ·)).head? = some d := by simpa [token] using hd
    simpa [hd] using this

end Source

namespace Numeral

theorem sign_cases (w : List Char) :
    (∃ cs, w = '-' :: cs ∧ digits w = cs ∧ value w = -(Nat.ofDigitChars 10 cs 0 : Nat)) ∨
      (w.head? ≠ some '-' ∧ digits w = w ∧ value w = (Nat.ofDigitChars 10 w 0 : Nat)) := by
  rcases w with _ | ⟨c, cs⟩
  · exact .inr ⟨by simp, rfl, rfl⟩
  by_cases hc : c = '-'
  · subst hc
    exact .inl ⟨cs, rfl, rfl, rfl⟩
  · refine .inr ⟨by simpa using hc, ?_, ?_⟩
    · unfold digits
      split <;> simp_all
    · unfold value
      split <;> simp_all

theorem startsNumeral_iff {w : List Char} : startsNumeral w = true ↔ StartsNumeral w := by
  have hd : ('-').isDigit = false := rfl
  constructor
  · intro h
    obtain ⟨c, hc, hcd⟩ : ∃ c, (digits w).head? = some c ∧ c.isDigit = true := by
      simpa only [startsNumeral, Option.any_eq_true] using h
    obtain ⟨cs, hcs⟩ := List.head?_eq_some_iff.1 hc
    obtain ⟨cs', rfl, hw, -⟩ | ⟨-, hw, -⟩ := sign_cases w
    · exact ⟨c, cs, hcd, .inr (by rw [← hcs, hw])⟩
    · exact ⟨c, cs, hcd, .inl (by rw [← hcs, hw])⟩
  · rintro ⟨c, cs, hcd, rfl | rfl⟩
    · obtain ⟨cs', h, -, -⟩ | ⟨-, hw, -⟩ := sign_cases (c :: cs)
      · simp_all
      · simp [startsNumeral, hw, hcd]
    · simp [startsNumeral, digits, hcd]

theorem isNumeral_iff {w : List Char} :
    isNumeral w = true ↔ digits w ≠ [] ∧ ∀ c ∈ digits w, c.isDigit = true := by
  rw [isNumeral, startsNumeral]
  cases digits w with
  | nil => simp
  | cons c cs => simp +contextual

end Numeral

theorem head?_digits_ne {cs : List Char} (h : Digits cs) {c : Char} (hc : c.isDigit = false) :
    cs.head? ≠ some c := by
  intro hd
  have := h.isDigit c (List.mem_of_mem_head? hd)
  simp [hc] at this

namespace Token

theorem ofChars_of_atom {w : List Char} {d : Datum} (h : Atom w d) (line : Int) :
    ofChars w line = .ok (.datum d) := by
  cases h with
  | natural hd =>
    obtain ⟨cs, rfl, -, -⟩ | ⟨-, hw, hv⟩ := Numeral.sign_cases w
    · exact absurd rfl (head?_digits_ne hd (c := '-') rfl)
    · have hn : Numeral.isNumeral w = true := by
        rw [Numeral.isNumeral_iff, hw]
        exact ⟨hd.ne_nil, hd.isDigit⟩
      simp [ofChars, hn, hw, hv, hd.length_le]
  | @negative cs hd =>
    have hn : Numeral.isNumeral ('-' :: cs) = true :=
      Numeral.isNumeral_iff.2 ⟨hd.ne_nil, hd.isDigit⟩
    simp [ofChars, hn, Numeral.digits, Numeral.value, hd.length_le]
  | true => rfl
  | false => rfl
  | nil => rfl
  | symbol hs hh hn hdot =>
    have hs' : Numeral.startsNumeral w = false := by
      rw [← Bool.not_eq_true, Numeral.startsNumeral_iff]
      exact hs
    have ht : w ≠ ['#', 't'] := by rintro rfl; exact hh rfl
    have hf : w ≠ ['#', 'f'] := by rintro rfl; exact hh rfl
    simp [ofChars, Numeral.isNumeral, hs', hh, hn, hdot, ht, hf]

theorem atom_of_ofChars {w : List Char} {d : Datum} {line : Int}
    (h : ofChars w line = .ok (.datum d)) : Atom w d := by
  unfold ofChars at h
  split at h
  · next hn =>
    split at h
    · next hl =>
      obtain rfl : Datum.int (Numeral.value w) = d := by simpa using h
      obtain ⟨hne, hd⟩ := Numeral.isNumeral_iff.1 hn
      obtain ⟨cs, rfl, hw, hv⟩ | ⟨-, hw, hv⟩ := Numeral.sign_cases w
      · rw [hw] at hne hd hl
        rw [hv]
        exact .negative ⟨hne, hd, hl⟩
      · rw [hw] at hne hd hl
        rw [hv]
        exact .natural ⟨hne, hd, hl⟩
    · simp at h
  split at h
  · simp at h
  next hs =>
  split at h
  · next ht =>
    obtain rfl : Datum.bool true = d := by simpa using h
    exact ht ▸ .true
  split at h
  · next hf =>
    obtain rfl : Datum.bool false = d := by simpa using h
    exact hf ▸ .false
  split at h
  · simp at h
  next hh =>
  split at h
  · next hn =>
    obtain rfl : Datum.nil = d := by simpa using h
    exact hn ▸ .nil
  next hn =>
  split at h
  · simp at h
  next hdot =>
  obtain rfl : Datum.symbol (String.ofList w) = d := by simpa using h
  exact .symbol (by rwa [← Numeral.startsNumeral_iff]) hh hn hdot

theorem ofChars_eq_dot_iff {w : List Char} {line : Int} :
    ofChars w line = .ok .dot ↔ w = ['.'] := by
  constructor
  · intro h
    unfold ofChars at h
    repeat' split at h
    all_goals simp_all
  · rintro rfl
    rfl

theorem ofChars_error {w : List Char} {line : Int} {fault : Fault}
    (h : ofChars w line = .error fault) :
    fault = .tooLong ∨ ∃ cause, fault = .malformed line cause := by
  unfold ofChars at h
  repeat' split at h
  all_goals cases h
  · exact .inl rfl
  · exact .inr ⟨_, rfl⟩
  · exact .inr ⟨_, rfl⟩

end Token

end Keel
