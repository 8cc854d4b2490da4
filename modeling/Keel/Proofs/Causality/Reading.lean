import Keel.Proofs.Consumption
import Keel.Proofs.Reading
import Keel.Proofs.Stream.Basic

/-! # Reading does not see what it leaves unread

Two sources show the same text up to a point and go on differently from there. As
long as everything beyond that point is unread in the first, the reader does the
same on both of them: it takes every character that it looks at, but for the
delimiter behind a token, which stays the first character unread. So beyond the
point the same character comes first in both texts, or else nothing that could
run into it is in progress there.
-/

namespace Keel

open Grammar

/-- Every line of the text is complete. -/
def Text.Whole (cs : List Char) : Prop :=
  ∀ c ∈ cs.getLast?, c = '\n'

theorem Text.Whole.tail {c : Char} {cs : List Char} (h : Whole (c :: cs)) : Whole cs := by
  cases cs with
  | nil => exact nofun
  | cons d cs => exact h

namespace Source

/-- Whether `t` or `t'` follows the text `q` cannot be told without reading of `t`. -/
def Parts (t t' q : List Char) : Prop :=
  t'.head? = t.head? ∨ t.head? = some '\n' ∧ (Delimited t' ∨ Text.Whole q)

/-- In both sources the same text is unread, on the same line; then `t` follows in the one, and `t'`
in the other. -/
structure Twin (t t' : List Char) (s s' : Source) : Prop where
  unread : ∃ q, s.unread = q ++ t ∧ s'.unread = q ++ t' ∧ Parts t t' q
  line : s'.line = s.line

variable {t t' q : List Char} {s s' : Source}

namespace Parts

theorem tail {c : Char} (h : Parts t t' (c :: q)) : Parts t t' q :=
  h.imp_right fun ⟨hnewline, hparts⟩ => ⟨hnewline, hparts.imp_right Text.Whole.tail⟩

theorem eq_nil (h : Parts [] t' q) : t' = [] :=
  List.head?_eq_none_iff.1 (h.resolve_right fun hnewline => nomatch hnewline.1)

theorem head?_eq (h : Parts t t' q) (ht : Significant t) : t'.head? = t.head? := by
  refine h.resolve_right fun ⟨hnewline, _⟩ => ?_
  exact absurd (ht '\n' hnewline).1 (by decide)

end Parts

theorem not_suffix_of_length_le {c : Char} {r u : List Char} (h : u.length ≤ r.length) :
    ¬ c :: r <:+ u := by
  intro hsuffix
  have hle := hsuffix.length_le
  rw [List.length_cons] at hle
  omega

/-- What comes first and is left stands outside a comment and is significant. -/
theorem significant_of_suffix {b : Bool} {c : Char} {r : List Char} {line : Int}
    (h : c :: r <:+ (dropBlanks b (c :: r) line).1) : b = false ∧ Significant (c :: r) := by
  have hdropped : ∀ b' line', ¬ c :: r <:+ (dropBlanks b' r line').1 := fun b' line' =>
    not_suffix_of_length_le (length_dropBlanks_le b' r line')
  cases b with
  | true =>
    simp only [dropBlanks] at h
    split at h
    · exact absurd h (hdropped _ _)
    · exact absurd h (hdropped _ _)
  | false =>
    simp only [dropBlanks] at h
    split at h
    · exact absurd h (hdropped _ _)
    split at h
    · exact absurd h (hdropped _ _)
    · next hsemicolon hblank =>
      exact ⟨rfl, significant_cons (by simpa using hblank) hsemicolon⟩

theorem dropBlanks_parts (hq : Parts t t' q) (b : Bool) (line : Int)
    (hleft : t <:+ (dropBlanks b (q ++ t) line).1) :
    ∃ q' line', dropBlanks b (q ++ t) line = (q' ++ t, line') ∧
      dropBlanks b (q ++ t') line = (q' ++ t', line') ∧ Parts t t' q' := by
  induction q generalizing b line with
  | nil =>
    cases t with
    | nil =>
      obtain rfl := hq.eq_nil
      exact ⟨[], line, by simp [dropBlanks], by simp [dropBlanks], hq⟩
    | cons c r =>
      obtain ⟨rfl, hsignificant⟩ := significant_of_suffix hleft
      have hsignificant' : Significant t' := fun d hd =>
        hsignificant d (hq.head?_eq hsignificant ▸ hd)
      exact ⟨[], line, dropBlanks_of_significant hsignificant line,
        dropBlanks_of_significant hsignificant' line, hq⟩
  | cons d q ih =>
    rw [List.cons_append] at hleft ⊢
    rw [List.cons_append]
    cases b with
    | true =>
      simp only [dropBlanks] at hleft ⊢
      split at hleft
      · next hd => simpa only [if_pos hd] using ih hq.tail _ _ hleft
      · next hd => simpa only [if_neg hd] using ih hq.tail _ _ hleft
    | false =>
      simp only [dropBlanks] at hleft ⊢
      split at hleft
      · next hd => simpa only [if_pos hd] using ih hq.tail _ _ hleft
      split at hleft
      · next hd hblank => simpa only [if_neg hd, if_pos hblank] using ih hq.tail _ _ hleft
      · next hd hblank =>
        refine ⟨d :: q, line, ?_, ?_, hq⟩
        · simp only [if_neg hd, if_neg hblank, List.cons_append]
        · simp only [if_neg hd, if_neg hblank, List.cons_append]

theorem dropLine_parts (hq : Parts t t' q) (line : Int)
    (hleft : t <:+ (dropLine (q ++ t) line).1) :
    ∃ q' line', dropLine (q ++ t) line = (q' ++ t, line') ∧
      dropLine (q ++ t') line = (q' ++ t', line') ∧ Parts t t' q' := by
  induction q generalizing line with
  | nil =>
    cases t with
    | nil =>
      obtain rfl := hq.eq_nil
      exact ⟨[], line, rfl, rfl, hq⟩
    | cons c r =>
      rw [List.nil_append, dropLine] at hleft
      split at hleft
      · exact absurd hleft (not_suffix_of_length_le (Nat.le_refl _))
      · exact absurd hleft (not_suffix_of_length_le (suffix_dropLine r line).length_le)
  | cons d q ih =>
    rw [List.cons_append, dropLine] at hleft ⊢
    rw [List.cons_append, dropLine]
    split at hleft
    · next hd => exact ⟨q, line + 1, by rw [if_pos hd], by rw [if_pos hd], hq.tail⟩
    · next hd => simpa only [if_neg hd] using ih hq.tail line hleft

/-! ## Tokens -/

theorem takeWhile_of_delimited (h : Delimited t) : t.takeWhile (!isDelimiter ·) = [] := by
  cases t with
  | nil => rfl
  | cons c r => simp [h c rfl]

theorem dropWhile_of_delimited (h : Delimited t) : t.dropWhile (!isDelimiter ·) = t := by
  cases t with
  | nil => rfl
  | cons c r => simp [h c rfl]

theorem delimited_of_suffix (h : t <:+ t.dropWhile (!isDelimiter ·)) : Delimited t := by
  cases t with
  | nil => exact nofun
  | cons c r =>
    by_cases hc : isDelimiter c = true
    · exact delimited_cons hc
    · rw [List.dropWhile_cons_of_pos (by simpa using hc)] at h
      exact absurd h (not_suffix_of_length_le (List.dropWhile_suffix _).length_le)

/-- A token ends in front of what `t` and `t'` follow, or else no token runs into either. -/
theorem span (hq : Parts t t' q) (hends : (Delimited t → Delimited t') ∨ q.getLast? = some '\n')
    (hleft : t <:+ (q ++ t).dropWhile (!isDelimiter ·)) :
    ∃ q', (q ++ t).dropWhile (!isDelimiter ·) = q' ++ t ∧
      (q ++ t').dropWhile (!isDelimiter ·) = q' ++ t' ∧
      (q ++ t').takeWhile (!isDelimiter ·) = (q ++ t).takeWhile (!isDelimiter ·) ∧
      Parts t t' q' := by
  induction q with
  | nil =>
    have ht := delimited_of_suffix hleft
    have ht' := hends.resolve_right nofun ht
    refine ⟨[], dropWhile_of_delimited ht, dropWhile_of_delimited ht', ?_, hq⟩
    exact (takeWhile_of_delimited ht').trans (takeWhile_of_delimited ht).symm
  | cons d q ih =>
    rw [List.cons_append] at hleft ⊢
    rw [List.cons_append]
    by_cases hd : isDelimiter d = true
    · exact ⟨d :: q, by simp [hd], by simp [hd], by simp [hd], hq⟩
    · have hends' : (Delimited t → Delimited t') ∨ q.getLast? = some '\n' := by
        refine hends.imp_right fun hlast => ?_
        cases q with
        | nil =>
          obtain rfl : d = '\n' := by simpa using hlast
          exact absurd rfl hd
        | cons e q => exact hlast
      rw [List.dropWhile_cons_of_pos (by simpa using hd)] at hleft ⊢
      obtain ⟨q', hdrop, hdrop', htake, hq'⟩ := ih hq.tail hends' hleft
      exact ⟨q', hdrop, by simp [hd, hdrop'], by simp [hd, htake], hq'⟩

/-- Where a token lies ahead, no token begins in `t`, unless one begins in `t'` alike. -/
theorem Parts.ends (h : Parts t t' q) (hs : Significant (q ++ t)) :
    (Delimited t → Delimited t') ∨ q.getLast? = some '\n' := by
  have halike : t'.head? = t.head? → Delimited t → Delimited t' := by
    intro hhead ht c hc
    exact ht c (hhead ▸ hc)
  rcases h with hhead | ⟨hnewline, ht' | hwhole⟩
  · exact .inl (halike hhead)
  · exact .inl fun _ => ht'
  · cases q with
    | nil => exact absurd (hs '\n' hnewline).1 (by decide)
    | cons d q =>
      refine .inr ?_
      have hlast := List.getLast?_eq_some_getLast (List.cons_ne_nil d q)
      rw [hlast, hwhole _ hlast]

/-! ## Sources -/

namespace Twin

theorem next (h : Twin t t' s s') (hleft : t <:+ s.next.2.unread) :
    s'.next.1 = s.next.1 ∧ Twin t t' s.next.2 s'.next.2 := by
  obtain ⟨⟨q, hs, hs', hq⟩, hline⟩ := h
  cases q with
  | nil =>
    cases t with
    | nil =>
      obtain rfl := hq.eq_nil
      rw [next_of_unread_eq_nil hs, next_of_unread_eq_nil hs']
      exact ⟨rfl, ⟨[], hs, hs', hq⟩, hline⟩
    | cons c r =>
      rw [next_of_unread_eq_cons hs] at hleft
      exact absurd hleft (not_suffix_of_length_le (Nat.le_refl _))
  | cons d q =>
    rw [next_of_unread_eq_cons hs, next_of_unread_eq_cons hs', hline]
    exact ⟨rfl, ⟨q, rfl, rfl, hq.tail⟩, rfl⟩

theorem head?_eq (h : Twin t t' s s') (hs : Significant s.unread) :
    s'.unread.head? = s.unread.head? := by
  obtain ⟨⟨q, hq, hq', hparts⟩, -⟩ := h
  rw [hq] at hs ⊢
  rw [hq']
  cases q with
  | nil => exact hparts.head?_eq hs
  | cons d q => rfl

theorem skipBlanks (h : Twin t t' s s') (hleft : t <:+ s.skipBlanks.unread) :
    Twin t t' s.skipBlanks s'.skipBlanks := by
  obtain ⟨⟨q, hs, hs', hq⟩, hline⟩ := h
  unfold Source.skipBlanks at hleft ⊢
  rw [hs] at hleft ⊢
  rw [hs', hline]
  obtain ⟨q', line', hdrop, hdrop', hq'⟩ := dropBlanks_parts hq false s.line hleft
  rw [hdrop, hdrop']
  exact ⟨⟨q', rfl, rfl, hq'⟩, rfl⟩

theorem nextSignificant (h : Twin t t' s s') (hleft : t <:+ s.nextSignificant.2.unread) :
    s'.nextSignificant.1 = s.nextSignificant.1 ∧
      Twin t t' s.nextSignificant.2 s'.nextSignificant.2 :=
  (h.skipBlanks (hleft.trans s.skipBlanks.advancesTo_next.suffix)).next hleft

theorem skipLine (h : Twin t t' s s') (hleft : t <:+ s.skipLine.unread) :
    Twin t t' s.skipLine s'.skipLine := by
  obtain ⟨⟨q, hs, hs', hq⟩, hline⟩ := h
  unfold Source.skipLine at hleft ⊢
  rw [hs] at hleft ⊢
  rw [hs', hline]
  obtain ⟨q', line', hdrop, hdrop', hq'⟩ := dropLine_parts hq s.line hleft
  rw [hdrop, hdrop']
  exact ⟨⟨q', rfl, rfl, hq'⟩, rfl⟩

theorem token (h : Twin t t' s s') (hsignificant : Significant s.unread)
    (hleft : t <:+ s.token.2.unread) :
    s'.token.1 = s.token.1 ∧ Twin t t' s.token.2 s'.token.2 := by
  obtain ⟨⟨q, hs, hs', hq⟩, hline⟩ := h
  rw [hs] at hsignificant
  simp only [Source.token, unread_fillSlot, unread_mk_none, hs, hs'] at hleft ⊢
  obtain ⟨q', hdrop, hdrop', htake, hq'⟩ := span hq (hq.ends hsignificant) hleft
  refine ⟨htake, ⟨q', ?_, ?_, hq'⟩, ?_⟩
  · rw [unread_fillSlot, unread_mk_none, hdrop]
  · rw [unread_fillSlot, unread_mk_none, hdrop']
  · rw [line_fillSlot, line_fillSlot, hline]

end Twin

end Source

variable {t t' : List Char} {s s' : Source}

namespace Datum

def Progress.on (s : Source) : Progress → Progress
  | .more stack _ => .more stack s
  | .done d _ => .done d s
  | .failed fault _ => .failed fault s

/-- If nothing of `t` is read, then it is the same progress on the twin. -/
def Progress.Echoes (t t' : List Char) (p p' : Progress) : Prop :=
  t <:+ p.source.unread → ∃ s', p' = p.on s' ∧ p.source.Twin t t' s'

namespace Progress

variable {limit : Nat} {stack : List Opening}

theorem echoes_malformed (h : s.Twin t t' s') (cause : Malformation) :
    Echoes t t' (malformed cause s) (malformed cause s') := by
  intro _
  refine ⟨s', ?_, h⟩
  rw [malformed, malformed, h.line]
  rfl

theorem echoes_opening (h : s.Twin t t' s') (o : Opening) :
    Echoes t t' (opening limit o stack s) (opening limit o stack s') := by
  unfold opening
  split
  · exact fun _ => ⟨s', rfl, h⟩
  · exact fun _ => ⟨s', rfl, h⟩

theorem echoes_deliver (h : s.Twin t t' s') (d : Datum) :
    Echoes t t' (deliver stack d s) (deliver stack d s') := by
  fun_induction deliver stack d s generalizing s' with
  | case1 d s => exact fun _ => ⟨s', rfl, h⟩
  | case2 line items stack d s => exact fun _ => ⟨s', rfl, h⟩
  | case3 stack d s ih => exact ih h
  | case4 items stack d s after hs ih =>
    intro hleft
    have hafter : t <:+ s.nextSignificant.2.unread := by
      rw [hs]
      exact hleft.trans (advancesTo_deliver stack _ after).suffix
    obtain ⟨hfst, htwin⟩ := h.nextSignificant hafter
    rw [hs] at hfst htwin
    rw [deliver, show s'.nextSignificant = (some ')', s'.nextSignificant.2) from Prod.ext hfst rfl]
    exact ih htwin hleft
  | case5 items stack d s e after hne hs =>
    intro hleft
    have hafter : t <:+ s.nextSignificant.2.unread := by
      rw [hs]
      exact hleft
    obtain ⟨hfst, htwin⟩ := h.nextSignificant hafter
    rw [hs] at hfst htwin
    have hmalformed : deliver (.tail items :: stack) d s' =
        malformed .unclosedTail s'.nextSignificant.2 := by
      rw [deliver]
      split
      · next after' heq => exact (hne (hfst.symm.trans (congrArg Prod.fst heq))).elim
      · next heq => rw [heq]
    rw [hmalformed]
    exact echoes_malformed htwin _ hleft

theorem echoes_atClose (h : s.Twin t t' s') :
    Echoes t t' (atClose stack s) (atClose stack s') := by
  rcases stack with _ | ⟨⟨line, items⟩ | items | _, stack⟩
  · exact echoes_malformed h .unmatchedClose
  · exact echoes_deliver h _
  · exact echoes_malformed h .missingTail
  · exact echoes_malformed h .unmatchedClose

theorem echoes_atDot (h : s.Twin t t' s') : Echoes t t' (atDot stack s) (atDot stack s') := by
  rcases stack with _ | ⟨⟨line, _ | ⟨item, items⟩⟩ | items | _, stack⟩
  · exact echoes_malformed h .strayDot
  · exact echoes_malformed h .leadingDot
  · exact fun _ => ⟨s', rfl, h⟩
  · exact echoes_malformed h .strayDot
  · exact echoes_malformed h .strayDot

theorem echoes_atEnd (h : s.Twin t t' s') : Echoes t t' (atEnd stack s) (atEnd stack s') := by
  rcases stack with _ | ⟨⟨line, items⟩ | items | _, stack⟩
  · exact fun _ => ⟨s', rfl, h⟩
  · exact echoes_malformed h (.unclosedList line)
  · exact echoes_malformed h .missingTail
  · exact echoes_malformed h .nothingQuoted

theorem echoes_atToken (h : s.Twin t t' s') (hsignificant : Significant s.unread) :
    Echoes t t' (atToken stack s) (atToken stack s') := by
  intro hleft
  obtain ⟨hfst, htwin⟩ :=
    h.token hsignificant (hleft.trans (token_advancesTo_atToken stack s).suffix)
  revert hleft
  simp only [atToken, hfst, htwin.line]
  cases Token.ofChars s.token.1 s.token.2.line with
  | ok token =>
    cases token with
    | datum d => exact echoes_deliver htwin d
    | dot => exact echoes_atDot htwin
  | error fault => exact fun _ => ⟨_, rfl, htwin⟩

end Progress

variable {limit : Nat} {stack : List Opening}

theorem echoes_advance (h : s.Twin t t' s') :
    Progress.Echoes t t' (advance limit stack s) (advance limit stack s') := by
  intro hleft
  have hstart := h.skipBlanks (hleft.trans (skipBlanks_advancesTo_advance limit stack s).suffix)
  have hsignificant : Significant s.skipBlanks.unread :=
    Source.significant_dropBlanks s.unread s.line
  have hfst : s'.skipBlanks.next.1 = s.skipBlanks.next.1 := by
    rw [Source.next_fst, Source.next_fst, hstart.head?_eq hsignificant]
  rcases hn : s.skipBlanks.next with ⟨c, after⟩
  rcases hn' : s'.skipBlanks.next with ⟨c', after'⟩
  rw [hn, hn'] at hfst
  obtain rfl : c' = c := hfst
  have hafter : t <:+ after.unread → after.Twin t t' after' := by
    intro hleft
    have hnext := hstart.next (by rwa [hn])
    rw [hn, hn'] at hnext
    exact hnext.2
  simp only [advance, hn, hn'] at hleft ⊢
  cases c' with
  | none =>
    rw [Progress.source_atEnd] at hleft
    exact Progress.echoes_atEnd (hafter hleft) (by rwa [Progress.source_atEnd])
  | some d =>
    by_cases hopen : d = '('
    · simp only [if_pos hopen] at hleft ⊢
      rw [Progress.source_opening] at hleft
      rw [(hafter hleft).line]
      exact Progress.echoes_opening (hafter hleft) _ (by rwa [Progress.source_opening])
    by_cases hclose : d = ')'
    · simp only [if_neg hopen, if_pos hclose] at hleft ⊢
      have hbefore := hleft.trans (Progress.advancesTo_atClose stack after).suffix
      exact Progress.echoes_atClose (hafter hbefore) hleft
    by_cases hquote : d = '\''
    · simp only [if_neg hopen, if_neg hclose, if_pos hquote] at hleft ⊢
      rw [Progress.source_opening] at hleft
      exact Progress.echoes_opening (hafter hleft) _ (by rwa [Progress.source_opening])
    · simp only [if_neg hopen, if_neg hclose, if_neg hquote] at hleft ⊢
      exact Progress.echoes_atToken hstart hsignificant hleft

theorem exists_advance (h : s.Twin t t' s') {p : Progress} (ha : advance limit stack s = p)
    (hleft : t <:+ p.source.unread) :
    ∃ u, advance limit stack s' = p.on u ∧ p.source.Twin t t' u := by
  subst ha
  exact echoes_advance h hleft

theorem twin_resume (h : s.Twin t t' s') (hleft : t <:+ (resume limit stack s).2.unread) :
    (resume limit stack s').1 = (resume limit stack s).1 ∧
      (resume limit stack s).2.Twin t t' (resume limit stack s').2 := by
  fun_induction resume limit stack s generalizing s' with
  | case1 stack s stack' after ha ih =>
    obtain ⟨u, hu, htwin⟩ :=
      exists_advance h ha (hleft.trans (advancesTo_resume limit stack' after).suffix)
    rw [resume_eq limit stack s', hu]
    exact ih htwin hleft
  | case2 stack s d after ha =>
    obtain ⟨u, hu, htwin⟩ := exists_advance h ha hleft
    rw [resume_eq limit stack s', hu]
    exact ⟨rfl, htwin⟩
  | case3 stack s fault after ha =>
    obtain ⟨u, hu, htwin⟩ := exists_advance h ha hleft
    rw [resume_eq limit stack s', hu]
    exact ⟨rfl, htwin⟩

/-- What is read in front of a text that is left unread does not depend on that text. -/
theorem twin_read (h : s.Twin t t' s') (hleft : t <:+ (read limit s).2.unread) :
    (read limit s').1 = (read limit s).1 ∧
      (read limit s).2.Twin t t' (read limit s').2 :=
  twin_resume h hleft

end Datum

end Keel
