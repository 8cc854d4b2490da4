import Keel.Datum.Reader
import Keel.Proofs.Scanning

/-! # Reading follows the grammar

With constructs open, reading a datum of the grammar comes to handing its value
to the innermost of them. Conversely, a reading that succeeds meets a datum, the
end of the innermost list, or its dot. Together: the reader accepts exactly the
data of the grammar and leaves exactly what follows them.
-/

namespace Keel

open Grammar

namespace Datum

variable {limit : Nat} {stack : List Opening} {s s' : Source}

def Progress.finish (limit : Nat) : Progress → Except Fault Datum × Source
  | .more stack s => resume limit stack s
  | .done d s => (.ok d, s)
  | .failed fault s => (.error fault, s)

theorem resume_eq (limit : Nat) (stack : List Opening) (s : Source) :
    resume limit stack s = (advance limit stack s).finish limit := by
  rw [resume]
  split <;> next h => simp [h, Progress.finish]

/-! ## One token -/

section Advance

variable {c : Char} {cs : List Char} {line : Int}

theorem advance_end (h : s.skipBlanks = ⟨none, [], line⟩) :
    advance limit stack s = .atEnd stack ⟨none, [], line⟩ := by
  simp [advance, h, Source.next]

theorem advance_open (h : s.skipBlanks = ⟨none, '(' :: cs, line⟩) :
    advance limit stack s = .opening limit (.list line []) stack ⟨none, cs, line⟩ := by
  simp [advance, h, Source.next, Source.lineAfter]

theorem advance_close (h : s.skipBlanks = ⟨none, ')' :: cs, line⟩) :
    advance limit stack s = .atClose stack ⟨none, cs, line⟩ := by
  simp [advance, h, Source.next, Source.lineAfter]

theorem advance_quote (h : s.skipBlanks = ⟨none, '\'' :: cs, line⟩) :
    advance limit stack s = .opening limit .quote stack ⟨none, cs, line⟩ := by
  simp [advance, h, Source.next, Source.lineAfter]

theorem advance_token (h : s.skipBlanks = ⟨none, c :: cs, line⟩) (hc : isDelimiter c = false) :
    advance limit stack s = .atToken stack ⟨none, c :: cs, line⟩ := by
  simp only [isDelimiter, Bool.or_eq_false_iff, beq_eq_false_iff_ne] at hc
  simp [advance, h, Source.next, hc]

end Advance

theorem resume_open {t : List Char} (h : Blank s.unread ('(' :: t)) (hl : stack.length < limit) :
    ∃ line, resume limit stack s = resume limit (.list line [] :: stack) ⟨none, t, line⟩ := by
  obtain ⟨line, h⟩ := Source.skipBlanks_of_blank h (significant_cons (by decide) (by decide))
  exact ⟨line, by rw [resume_eq, advance_open h, Progress.opening, if_pos hl, Progress.finish]⟩

theorem resume_quote {t : List Char} (h : Blank s.unread ('\'' :: t)) (hl : stack.length < limit) :
    ∃ line, resume limit stack s = resume limit (.quote :: stack) ⟨none, t, line⟩ := by
  obtain ⟨line, h⟩ := Source.skipBlanks_of_blank h (significant_cons (by decide) (by decide))
  exact ⟨line, by rw [resume_eq, advance_quote h, Progress.opening, if_pos hl, Progress.finish]⟩

theorem resume_close {r : List Char} (opened : Int) (items : List Datum)
    (h : Blank s.unread (')' :: r)) :
    ∃ line, resume limit (.list opened items :: stack) s =
      (Progress.deliver stack (reverseListTo items .nil) ⟨none, r, line⟩).finish limit := by
  obtain ⟨line, h⟩ := Source.skipBlanks_of_blank h (significant_cons (by decide) (by decide))
  exact ⟨line, by rw [resume_eq, advance_close h, Progress.atClose]⟩

theorem resume_token {w r : List Char} (h : Blank s.unread (w ++ r)) (hw : IsToken w r) :
    ∃ after : Source, after.unread = r ∧ ∃ line, resume limit stack s =
      (match Token.ofChars w line with
        | .ok (.datum d) => Progress.deliver stack d after
        | .ok .dot => Progress.atDot stack after
        | .error fault => Progress.failed fault after).finish limit := by
  obtain ⟨line, h⟩ := Source.skipBlanks_of_blank h hw.significant
  have ht := Source.token_of_isToken (s := ⟨none, w ++ r, line⟩) hw rfl
  obtain ⟨c, cs, rfl⟩ := List.exists_cons_of_ne_nil hw.ne_nil
  rw [List.cons_append] at h ht
  rw [resume_eq, advance_token h (hw.plain c List.mem_cons_self), Progress.atToken]
  generalize Source.token ⟨none, c :: (cs ++ r), line⟩ = token at ht ⊢
  obtain ⟨w, after⟩ := token
  obtain ⟨rfl, hr⟩ := ht
  exact ⟨after, hr, after.line, rfl⟩

theorem resume_atom {w r : List Char} {d : Datum} (h : Blank s.unread (w ++ r))
    (hw : IsToken w r) (hd : Atom w d) :
    ∃ after : Source, after.unread = r ∧
      resume limit stack s = (Progress.deliver stack d after).finish limit := by
  obtain ⟨after, hr, line, h⟩ := resume_token h hw
  exact ⟨after, hr, by rw [h, Token.ofChars_of_atom hd]⟩

theorem resume_dot {r : List Char} (opened : Int) (item : Datum) (items : List Datum)
    (h : Blank s.unread ('.' :: r)) (hw : IsToken ['.'] r) :
    ∃ after : Source, after.unread = r ∧ resume limit (.list opened (item :: items) :: stack) s =
      resume limit (.tail (item :: items) :: stack) after := by
  obtain ⟨after, hr, line, h⟩ := resume_token (w := ['.']) h hw
  exact ⟨after, hr, by rw [h]; rfl⟩

theorem deliver_tail {r : List Char} (items : List Datum) (d : Datum)
    (h : Blank s.unread (')' :: r)) :
    ∃ line, Progress.deliver (.tail items :: stack) d s =
      Progress.deliver stack (reverseListTo items d) ⟨none, r, line⟩ := by
  obtain ⟨line, h⟩ := Source.skipBlanks_of_blank h (significant_cons (by decide) (by decide))
  exact ⟨line, by simp [Progress.deliver, Source.nextSignificant, h, Source.next, Source.lineAfter]⟩

/-! ## Data of the grammar are read -/

mutual

theorem resume_of_denotes {n : Nat} {t r : List Char} {d : Datum} (stack : List Opening)
    (s : Source) : Denotes n t r d → Blank s.unread t → stack.length + n ≤ limit →
    ∃ after : Source, after.unread = r ∧
      resume limit stack s = (Progress.deliver stack d after).finish limit
  | .atom hw hd, hb, _ => resume_atom hb hw hd
  | .quote hb' hd, hb, hl => by
    have hlt : stack.length < limit := by omega
    obtain ⟨line, h⟩ := resume_quote hb hlt
    obtain ⟨after, hr, h'⟩ := resume_of_denotes (.quote :: stack) ⟨none, _, line⟩ hd hb'
      (by rw [List.length_cons]; omega)
    exact ⟨after, hr, h.trans h'⟩
  | @Denotes.list _ _ _ _ items hi hb', hb, hl => by
    have hlt : stack.length < limit := by omega
    obtain ⟨line, h⟩ := resume_open hb hlt
    obtain ⟨mid, hm, h'⟩ := resume_of_items stack line [] ⟨none, _, line⟩ hi rfl (by omega)
    obtain ⟨line', h''⟩ := resume_close line items.reverse (hm ▸ hb')
    refine ⟨⟨none, r, line'⟩, rfl, ?_⟩
    rw [h, h', List.append_nil, h'', reverseListTo_eq, List.reverse_reverse]
    rfl
  | @Denotes.dotted _ _ _ _ _ _ _ items tail hi hne hb₁ hw hb₂ hd hb₃, hb, hl => by
    have hlt : stack.length < limit := by omega
    obtain ⟨line, h⟩ := resume_open hb hlt
    obtain ⟨mid, hm, h'⟩ := resume_of_items stack line [] ⟨none, _, line⟩ hi rfl (by omega)
    obtain ⟨item, rest, hrev⟩ := List.exists_cons_of_ne_nil (List.reverse_ne_nil_iff.2 hne)
    obtain ⟨dot, hdot, h''⟩ := resume_dot line item rest (hm ▸ hb₁) hw
    obtain ⟨last, hlast, h₃⟩ := resume_of_denotes (.tail (item :: rest) :: stack) dot hd
      (hdot ▸ hb₂) (by rw [List.length_cons]; omega)
    obtain ⟨line', h₄⟩ := deliver_tail (item :: rest) tail (hlast ▸ hb₃)
    refine ⟨⟨none, r, line'⟩, rfl, ?_⟩
    rw [h, h', List.append_nil, hrev, h'', h₃, h₄, reverseListTo_eq, ← hrev, List.reverse_reverse]

theorem resume_of_items {n : Nat} {t r : List Char} {items : List Datum} (stack : List Opening)
    (opened : Int) (done : List Datum) (s : Source) : Items n t r items → s.unread = t →
    stack.length + n < limit →
    ∃ after : Source, after.unread = r ∧ resume limit (.list opened done :: stack) s =
      resume limit (.list opened (items.reverse ++ done) :: stack) after
  | .nil _ _, hs, _ => ⟨s, hs, rfl⟩
  | @Items.cons _ _ _ _ _ d _ hb hd hi, hs, hl => by
    obtain ⟨mid, hm, h⟩ := resume_of_denotes (.list opened done :: stack) s hd (hs ▸ hb)
      (by rw [List.length_cons]; omega)
    obtain ⟨after, hr, h'⟩ := resume_of_items stack opened (d :: done) mid hi hm hl
    refine ⟨after, hr, ?_⟩
    rw [h, Progress.deliver, Progress.finish, h']
    simp

end

/-! ## What is read is a datum of the grammar -/

/-- From `t` to `r` a list ends: with its parenthesis, or with a dot, a tail and the parenthesis. -/
inductive Ending (n : Nat) : (dotted : Bool) → (t r : List Char) → Datum → Prop where
  | proper {t r : List Char} : Blank t (')' :: r) → Ending n false t r .nil
  | dotted {t t₁ t₂ t₃ r : List Char} {tail : Datum} : Blank t ('.' :: t₁) → IsToken ['.'] t₁ →
      Blank t₁ t₂ → Denotes n t₂ t₃ tail → Blank t₃ (')' :: r) → Ending n true t r tail

theorem Ending.denotes {n : Nat} {dotted : Bool} {t t' r : List Char} {items : List Datum}
    {tail : Datum} (h : Ending n dotted t' r tail) (hi : Items n t t' items)
    (hne : dotted = true → items ≠ []) : Denotes (n + 1) ('(' :: t) r (listTo items tail) := by
  cases h with
  | proper hb => exact .list hi hb
  | dotted hb hw hb' hd hb'' => exact .dotted hi (hne rfl) hb hw hb' hd hb''

/-- What lies ahead of a reader that will deliver `d` and stop at `last`: a datum, the end of the
innermost list, or the dot in it. -/
inductive Meets (limit : Nat) (d : Datum) (last : Source) : List Opening → Source → Prop where
  | datum {stack : List Opening} {s after : Source} {t : List Char} {e : Datum} :
      Blank s.unread t → Denotes (limit - stack.length) t after.unread e →
      (Progress.deliver stack e after).finish limit = (.ok d, last) → Meets limit d last stack s
  | close {stack : List Opening} {s after : Source} {opened : Int} {items : List Datum} :
      Blank s.unread (')' :: after.unread) →
      (Progress.deliver stack (reverseListTo items .nil) after).finish limit = (.ok d, last) →
      Meets limit d last (.list opened items :: stack) s
  | dot {stack : List Opening} {s after : Source} {opened : Int} {items : List Datum} :
      items ≠ [] → Blank s.unread ('.' :: after.unread) → IsToken ['.'] after.unread →
      resume limit (.tail items :: stack) after = (.ok d, last) →
      Meets limit d last (.list opened items :: stack) s

section Soundness

variable {d : Datum} {last : Source}

theorem finish_opening {o : Opening}
    (h : (Progress.opening limit o stack s).finish limit = (.ok d, last)) :
    stack.length < limit ∧ resume limit (o :: stack) s = (.ok d, last) := by
  unfold Progress.opening at h
  split at h
  · next hl => exact ⟨hl, h⟩
  · simp [Progress.finish] at h

theorem finish_atEnd_ne : (Progress.atEnd stack s).finish limit ≠ (.ok d, last) := by
  fun_cases Progress.atEnd stack s <;> simp [Progress.finish, Progress.malformed]

theorem finish_deliver_tail {items : List Datum} {e : Datum}
    (h : (Progress.deliver (.tail items :: stack) e s).finish limit = (.ok d, last)) :
    ∃ after : Source, Blank s.unread (')' :: after.unread) ∧
      (Progress.deliver stack (reverseListTo items e) after).finish limit = (.ok d, last) := by
  obtain ⟨r, line, hs, hb, -⟩ := s.exists_skipBlanks
  simp only [Progress.deliver, Source.nextSignificant, hs] at h
  cases r with
  | nil => simp [Source.next, Progress.malformed, Progress.finish] at h
  | cons c cs =>
    by_cases hc : c = ')'
    · subst hc
      exact ⟨⟨none, cs, Source.lineAfter line ')'⟩, hb, h⟩
    · simp [Source.next, hc, Progress.malformed, Progress.finish] at h

theorem meets_of_atToken (hb : Blank s.unread (s'.token.1 ++ s'.token.2.unread))
    (hw : IsToken s'.token.1 s'.token.2.unread)
    (h : (Progress.atToken stack s').finish limit = (.ok d, last)) :
    Meets limit d last stack s := by
  simp only [Progress.atToken] at h
  split at h
  · next e he => exact .datum hb (.atom hw (Token.atom_of_ofChars he)) h
  · next he =>
    have he := Token.ofChars_eq_dot_iff.1 he
    rw [he] at hb hw
    revert h
    fun_cases Progress.atDot stack s'.token.2 with
    | case1 => simp [Progress.finish, Progress.malformed]
    | case2 opened items stack hne => exact fun h => .dot hne hb hw h
    | case3 => simp [Progress.finish, Progress.malformed]
  · simp [Progress.finish] at h

/-- The rest of an open list, given that a reader meets what it should as far as that. -/
theorem exists_ending {opened : Int} {done : List Datum} {n : Nat}
    (hn : n = limit - (stack.length + 1))
    (h : resume limit (.list opened done :: stack) s = (.ok d, last))
    (hm : ∀ s' : Source, s'.unread.length ≤ s.unread.length → ∀ stack,
      resume limit stack s' = (.ok d, last) → Meets limit d last stack s') :
    ∃ items dotted t tail, ∃ after : Source, Items n s.unread t items ∧
      Ending n dotted t after.unread tail ∧ (dotted = true → done.reverse ++ items ≠ []) ∧
      (Progress.deliver stack (listTo (done.reverse ++ items) tail) after).finish limit =
        (.ok d, last) := by
  induction hk : s.unread.length using Nat.strongRecOn generalizing s done with
  | ind k ih =>
    subst hk
    cases hm s (Nat.le_refl _) _ h with
    | @datum _ _ mid t e hb hd hf =>
      rw [List.length_cons, ← hn] at hd
      have hlt : mid.unread.length < s.unread.length :=
        Nat.lt_of_lt_of_le hd.length_lt hb.suffix.length_le
      obtain ⟨items, dotted, t', tail, after, hi, he, hne, hf'⟩ :=
        ih _ hlt hf (fun s' hs' => hm s' (Nat.le_trans hs' (Nat.le_of_lt hlt))) rfl
      refine ⟨e :: items, dotted, t', tail, after, .cons hb hd hi, he, by simp, ?_⟩
      simpa using hf'
    | @close _ _ after _ _ hb hf =>
      refine ⟨[], false, _, .nil, after, .nil _ _, .proper hb, by simp, ?_⟩
      rwa [reverseListTo_eq, ← List.append_nil done.reverse] at hf
    | @dot _ _ mid _ _ hne hb hw hf =>
      have hle : mid.unread.length ≤ s.unread.length := by
        have := hb.suffix.length_le
        rw [List.length_cons] at this
        omega
      cases hm mid hle _ hf with
      | @datum _ _ mid' t e hb' hd hf' =>
        rw [List.length_cons, ← hn] at hd
        obtain ⟨after, hb'', hf''⟩ := finish_deliver_tail hf'
        refine ⟨[], true, _, e, after, .nil _ _, .dotted hb hw hb' hd hb'', by simpa using hne, ?_⟩
        rwa [reverseListTo_eq, ← List.append_nil done.reverse] at hf''

theorem meets_of_opened {cs : List Char} {line : Int} (hb : Blank s.unread ('(' :: cs))
    (hl : stack.length < limit)
    (h : resume limit (.list line [] :: stack) ⟨none, cs, line⟩ = (.ok d, last))
    (hm : ∀ s' : Source, s'.unread.length ≤ cs.length → ∀ stack,
      resume limit stack s' = (.ok d, last) → Meets limit d last stack s') :
    Meets limit d last stack s := by
  obtain ⟨items, dotted, t, tail, after, hi, he, hne, hf⟩ := exists_ending rfl h hm
  have hd := he.denotes hi hne
  have hinner : limit - (stack.length + 1) + 1 = limit - stack.length := by omega
  rw [hinner] at hd
  exact .datum hb hd hf

theorem meets_of_quoted {cs : List Char} {line : Int} (hb : Blank s.unread ('\'' :: cs))
    (hl : stack.length < limit)
    (hm : Meets limit d last (.quote :: stack) ⟨none, cs, line⟩) : Meets limit d last stack s := by
  cases hm with
  | @datum _ _ after t e hb' hd hf =>
    have hq := Denotes.quote hb' hd
    have hinner : limit - (stack.length + 1) + 1 = limit - stack.length := by omega
    rw [List.length_cons, hinner] at hq
    exact .datum hb hq hf

theorem meets_of_resume (h : resume limit stack s = (.ok d, last)) :
    Meets limit d last stack s := by
  induction hk : s.unread.length using Nat.strongRecOn generalizing s stack with
  | ind k ih =>
    subst hk
    rw [resume_eq] at h
    cases s.shows with
    | nothing hs _ =>
      rw [advance_end hs] at h
      exact absurd h finish_atEnd_ne
    | @opening cs line hs hb =>
      rw [advance_open hs] at h
      obtain ⟨hl, h⟩ := finish_opening h
      have hlt : cs.length < s.unread.length := hb.suffix.length_le
      exact meets_of_opened hb hl h fun s' hs' stack h => ih _ (Nat.lt_of_le_of_lt hs' hlt) h rfl
    | @closing cs line hs hb =>
      rw [advance_close hs] at h
      revert h
      fun_cases Progress.atClose stack ⟨none, cs, line⟩ with
      | case1 opened items stack =>
        have hb : Blank s.unread (')' :: Source.unread ⟨none, cs, line⟩) := hb
        exact fun h => .close hb h
      | case2 => simp [Progress.finish, Progress.malformed]
      | case3 => simp [Progress.finish, Progress.malformed]
    | @quoting cs line hs hb =>
      rw [advance_quote hs] at h
      obtain ⟨hl, h⟩ := finish_opening h
      exact meets_of_quoted hb hl (ih cs.length hb.suffix.length_le h rfl)
    | @token c cs line hc hs hb =>
      rw [advance_token hs hc] at h
      refine meets_of_atToken ?_ (Source.isToken_token rfl hc) h
      rw [Source.unread_token]
      exact hb

end Soundness

/-! ## What is refused -/

section Refusal

variable {fault : Fault} {stack' : List Opening}

theorem malformed_eq_failed {cause : Malformation}
    (h : Progress.malformed cause s = .failed fault s') :
    ∃ cause, fault = .malformed s'.line cause := by
  obtain ⟨rfl, rfl⟩ : _ = fault ∧ _ = s' := by simpa [Progress.malformed] using h
  exact ⟨cause, rfl⟩

theorem opening_eq_failed_iff {o : Opening} :
    Progress.opening limit o stack s = .failed fault s' ↔
      limit ≤ stack.length ∧ fault = .tooDeep ∧ s' = s := by
  unfold Progress.opening
  split
  · next hroom => simp [Nat.not_le.2 hroom]
  · next hfull => simp [Nat.not_lt.1 hfull, eq_comm]

theorem opening_eq_more {o : Opening} (h : Progress.opening limit o stack s = .more stack' s') :
    stack' ≠ [] := by
  unfold Progress.opening at h
  split at h
  · obtain ⟨rfl, -⟩ : _ = stack' ∧ _ = s' := by simpa using h
    exact List.cons_ne_nil _ _
  · simp at h

theorem deliver_eq_failed {d : Datum} (h : Progress.deliver stack d s = .failed fault s') :
    ∃ cause, fault = .malformed s'.line cause := by
  fun_induction Progress.deliver stack d s with
  | case1 => simp at h
  | case2 => simp at h
  | case3 _ _ _ ih => exact ih h
  | case4 _ _ _ _ _ _ ih => exact ih h
  | case5 => exact malformed_eq_failed h

theorem deliver_eq_more {d : Datum} (h : Progress.deliver stack d s = .more stack' s') :
    stack' ≠ [] := by
  fun_induction Progress.deliver stack d s with
  | case1 => simp at h
  | case2 =>
    obtain ⟨rfl, -⟩ : _ = stack' ∧ _ = s' := by simpa using h
    exact List.cons_ne_nil _ _
  | case3 _ _ _ ih => exact ih h
  | case4 _ _ _ _ _ _ ih => exact ih h
  | case5 => simp [Progress.malformed] at h

theorem atDot_eq_failed (h : Progress.atDot stack s = .failed fault s') :
    ∃ cause, fault = .malformed s'.line cause := by
  revert h
  fun_cases Progress.atDot stack s with
  | case1 => exact malformed_eq_failed
  | case2 => simp
  | case3 => exact malformed_eq_failed

theorem atToken_eq_failed (h : Progress.atToken stack s = .failed fault s') :
    fault = .tooLong ∨ ∃ cause, fault = .malformed s'.line cause := by
  simp only [Progress.atToken] at h
  split at h
  · exact .inr (deliver_eq_failed h)
  · exact .inr (atDot_eq_failed h)
  · next he =>
    obtain ⟨rfl, rfl⟩ : _ = fault ∧ _ = s' := by simpa using h
    exact Token.ofChars_error he

theorem atToken_eq_more (h : Progress.atToken stack s = .more stack' s') : stack' ≠ [] := by
  simp only [Progress.atToken] at h
  split at h
  · exact deliver_eq_more h
  · revert h
    fun_cases Progress.atDot stack s.token.2 with
    | case1 => simp [Progress.malformed]
    | case2 =>
      intro h
      obtain ⟨rfl, -⟩ : _ = stack' ∧ _ = s' := by simpa using h
      exact List.cons_ne_nil _ _
    | case3 => simp [Progress.malformed]
  · simp at h

theorem advance_eq_more (h : advance limit stack s = .more stack' s') : stack' ≠ [] := by
  cases s.shows with
  | nothing hs _ =>
    rw [advance_end hs] at h
    revert h
    fun_cases Progress.atEnd stack _ <;> simp [Progress.malformed]
  | opening hs _ =>
    rw [advance_open hs] at h
    exact opening_eq_more h
  | closing hs _ =>
    rw [advance_close hs] at h
    revert h
    fun_cases Progress.atClose stack _ with
    | case1 => exact deliver_eq_more
    | case2 => simp [Progress.malformed]
    | case3 => simp [Progress.malformed]
  | quoting hs _ =>
    rw [advance_quote hs] at h
    exact opening_eq_more h
  | token hc hs _ =>
    rw [advance_token hs hc] at h
    exact atToken_eq_more h

theorem atEnd_eq_failed (h : Progress.atEnd stack s = .failed fault s') :
    (fault = .endOfInput ∧ stack = []) ∨ ∃ cause, fault = .malformed s'.line cause := by
  revert h
  fun_cases Progress.atEnd stack s with
  | case1 =>
    intro h
    obtain ⟨rfl, -⟩ : Fault.endOfInput = fault ∧ _ = s' := by simpa using h
    exact .inl ⟨rfl, rfl⟩
  | case2 => exact fun h => .inr (malformed_eq_failed h)
  | case3 => exact fun h => .inr (malformed_eq_failed h)
  | case4 => exact fun h => .inr (malformed_eq_failed h)

theorem atClose_eq_failed (h : Progress.atClose stack s = .failed fault s') :
    ∃ cause, fault = .malformed s'.line cause := by
  revert h
  fun_cases Progress.atClose stack s with
  | case1 => exact deliver_eq_failed
  | case2 => exact malformed_eq_failed
  | case3 => exact malformed_eq_failed

/-- A refusal while something is open, or in front of something. Every malformed text is told with
the line that has been reached. -/
def Refused (fault : Fault) (s : Source) : Prop :=
  fault = .tooDeep ∨ fault = .tooLong ∨ ∃ cause, fault = .malformed s.line cause

/-- The end of the input is announced where nothing is open and only blanks lie ahead. -/
theorem advance_eq_failed (h : advance limit stack s = .failed fault s') :
    (fault = .endOfInput ∧ stack = [] ∧ Blank s.unread []) ∨ Refused fault s' := by
  cases s.shows with
  | nothing hs hb =>
    rw [advance_end hs] at h
    rcases atEnd_eq_failed h with ⟨hfault, hstack⟩ | hmalformed
    · exact .inl ⟨hfault, hstack, hb⟩
    · exact .inr (.inr (.inr hmalformed))
  | opening hs _ =>
    rw [advance_open hs] at h
    exact .inr (.inl (opening_eq_failed_iff.1 h).2.1)
  | closing hs _ =>
    rw [advance_close hs] at h
    exact .inr (.inr (.inr (atClose_eq_failed h)))
  | quoting hs _ =>
    rw [advance_quote hs] at h
    exact .inr (.inl (opening_eq_failed_iff.1 h).2.1)
  | token hc hs _ =>
    rw [advance_token hs hc] at h
    exact .inr (.inr (atToken_eq_failed h))

theorem resume_eq_error (h : resume limit stack s = (.error fault, s')) :
    (fault = .endOfInput ∧ stack = [] ∧ Blank s.unread []) ∨ Refused fault s' := by
  fun_induction resume limit stack s with
  | case1 stack s stack' t ha ih =>
    obtain ⟨-, hn, -⟩ | hr := ih h
    · exact absurd hn (advance_eq_more ha)
    · exact .inr hr
  | case2 => simp at h
  | case3 stack s fault' t ha =>
    obtain ⟨rfl, rfl⟩ : fault' = fault ∧ t = s' := by simpa using h
    exact advance_eq_failed ha

theorem ne_slotTaken_of_read (h : read limit s = (.error fault, s')) (held refused : Char) :
    fault ≠ .slotTaken held refused := by
  rintro rfl
  rcases resume_eq_error h with ⟨hend, -⟩ | hdeep | hlong | ⟨_, hmalformed⟩
  · exact nomatch hend
  · exact nomatch hdeep
  · exact nomatch hlong
  · exact nomatch hmalformed

theorem resume_blank (h : Blank s.unread []) :
    ∃ last, resume limit [] s = (.error .endOfInput, last) := by
  obtain ⟨line, hs⟩ := Source.skipBlanks_of_blank h (by simp [Significant])
  exact ⟨_, by rw [resume_eq, advance_end hs]; rfl⟩

end Refusal

/-! ## Reading from the start -/

variable {d : Datum}

theorem exists_denotes_of_read (h : read limit s = (.ok d, s')) :
    ∃ t, Blank s.unread t ∧ Denotes limit t s'.unread d := by
  cases meets_of_resume h with
  | @datum _ _ mid t e hb hd hf =>
    obtain ⟨rfl, rfl⟩ : e = d ∧ mid = s' := by
      simpa [Progress.deliver, Progress.finish] using hf
    exact ⟨t, hb, hd⟩

theorem read_of_denotes {t r : List Char} (hb : Blank s.unread t) (hd : Denotes limit t r d) :
    ∃ after, read limit s = (.ok d, after) ∧ after.unread = r := by
  have hl : ([] : List Opening).length + limit ≤ limit := by simp
  obtain ⟨after, hr, h⟩ := resume_of_denotes [] s hd hb hl
  exact ⟨after, h, hr⟩

theorem blank_of_read (h : read limit s = (.error .endOfInput, s')) : Blank s.unread [] := by
  obtain ⟨-, -, hb⟩ | hr := resume_eq_error h
  · exact hb
  · simp [Refused] at hr

end Datum

end Keel
