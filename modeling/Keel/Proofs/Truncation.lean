import Keel.Proofs.Causality.Reading
import Keel.Proofs.Limit
import Keel.Proofs.Recovery

/-! # Lists that are cut off

The text of a list ends where its parenthesis closes, whatever follows, so no such
text is the beginning of another. Where a list is cut off, the reader goes through
what is left of it as it goes through the whole, and in the end it has a construct
open: it refuses the text as malformed, with nothing left to be read.
-/

namespace Keel

/-! ## The text of a list -/

namespace Grammar

/-- The text denotes a datum in parentheses, whatever follows. -/
structure IsListText (limit : Nat) (w : List Char) : Prop where
  head? : w.head? = some '('
  denotes : ∃ d, ∀ r, Denotes limit (w ++ r) r d

variable {limit limit' : Nat} {t w w' r r' : List Char} {d d' : Datum}

theorem Denotes.significant (h : Denotes limit t r d) : Significant t := by
  cases h with
  | atom hw _ => exact hw.significant
  | quote _ _ => exact significant_cons (by decide) (by decide)
  | list _ _ => exact significant_cons (by decide) (by decide)
  | dotted _ _ _ _ _ _ _ => exact significant_cons (by decide) (by decide)

theorem Blank.unique (h : Blank t r) (h' : Blank t r') (hr : Significant r)
    (hr' : Significant r') : r = r' := by
  obtain ⟨line, hdrop⟩ := Source.dropBlanks_of_blank h hr 1
  obtain ⟨line', hdrop'⟩ := Source.dropBlanks_of_blank h' hr' 1
  exact (Prod.mk.inj (hdrop.symm.trans hdrop')).1

/-- A text starts with one datum only, whatever the limits. -/
theorem Denotes.unique (h : Denotes limit t r d) (h' : Denotes limit' t r' d') : r = r' := by
  let s : Source := ⟨none, t, 1⟩
  have hread : ∀ {n r d}, Denotes n t r d → n ≤ max limit limit' →
      ∃ after, Datum.read (max limit limit') s = (.ok d, after) ∧ after.unread = r := by
    intro n r d h hn
    obtain ⟨after, hread, hafter⟩ := Datum.read_of_denotes (s := s) (.nil t) h
    refine ⟨after, ?_, hafter⟩
    rw [Datum.read_eq_of_le hn (by simp [hread]), hread]
  obtain ⟨after, hafter, rfl⟩ := hread h (Nat.le_max_left _ _)
  obtain ⟨after', hafter', rfl⟩ := hread h' (Nat.le_max_right _ _)
  obtain ⟨-, rfl⟩ := Prod.mk.inj (hafter.symm.trans hafter')
  rfl

theorem Denotes.exists_isListText (h : Denotes limit t r d) (ht : t.head? = some '(') :
    ∃ w, t = w ++ r ∧ IsListText limit w := by
  obtain ⟨w, hw, rfl, hd⟩ := h.exchange
  obtain ⟨c, w, rfl⟩ := List.exists_cons_of_ne_nil hw
  refine ⟨c :: w, rfl, ⟨ht, d, fun x => hd x ?_⟩⟩
  intro hne
  exact absurd ht hne

theorem IsListText.ne_nil (h : IsListText limit w) : w ≠ [] := by
  rintro rfl
  exact nomatch h.head?

/-- No text of a list is the beginning of another one. -/
theorem IsListText.eq_of_isPrefix (h : IsListText limit w) (h' : IsListText limit' w')
    (hpre : w <+: w') : w = w' := by
  obtain ⟨x, rfl⟩ := hpre
  obtain ⟨d, hd⟩ := h.denotes
  obtain ⟨d', hd'⟩ := h'.denotes
  have hx : x ++ [] = [] := (List.append_assoc w x [] ▸ hd (x ++ [])).unique (hd' [])
  simpa using hx

end Grammar

open Grammar

/-! ## Reading what is left -/

/-- The source `t` is `s` without the end `q`. -/
structure Source.Cut (q : List Char) (s t : Source) : Prop where
  unread : s.unread = t.unread ++ q
  line : t.line = s.line

namespace Source.Cut

variable {q r : List Char} {c : Char} {s t : Source}

theorem twin (h : Cut q s t) (hleft : c :: r <:+ t.unread) : t.Twin (c :: r) (c :: (r ++ q)) s := by
  obtain ⟨p, hp⟩ := hleft
  refine ⟨⟨p, hp.symm, ?_, .inl rfl⟩, h.line.symm⟩
  rw [h.unread, ← hp, List.append_assoc, List.cons_append]

theorem of_twin (h : t.Twin (c :: r) (c :: (r ++ q)) s) : Cut q s t := by
  obtain ⟨⟨p, ht, hs, -⟩, hline⟩ := h
  constructor
  · simp [ht, hs]
  · exact hline.symm

theorem skipBlanks (h : Cut q s t) (hb : Blank t.unread (c :: r)) (hc : Significant (c :: r)) :
    ∃ line, s.skipBlanks = ⟨none, c :: (r ++ q), line⟩ := by
  obtain ⟨b, hu, hb'⟩ := hb.exchange (List.cons_ne_nil c r)
  refine skipBlanks_of_blank ?_ ?_
  · rw [h.unread, hu, List.append_assoc]
    exact hb' _
  · rintro d ⟨rfl⟩
    exact hc c rfl

end Source.Cut

theorem Numeral.digits_append {w : List Char} (hw : w ≠ []) (x : List Char) :
    digits (w ++ x) = digits w ++ x := by
  obtain ⟨c, w, rfl⟩ := List.exists_cons_of_ne_nil hw
  obtain ⟨cs, h, hdigits, -⟩ | ⟨hc, hdigits, -⟩ := sign_cases (c :: w)
  · rw [h, List.cons_append]
    rfl
  · obtain ⟨cs, h, -⟩ | ⟨-, hdigits', -⟩ := sign_cases (c :: w ++ x)
    · simp_all
    · rw [hdigits, hdigits']

theorem Token.isNumeral_of_tooLong {w : List Char} {line : Int}
    (h : ofChars w line = .error .tooLong) :
    Numeral.isNumeral w = true ∧ Numeral.maxDigits < (Numeral.digits w).length := by
  unfold ofChars at h
  repeat' split at h
  all_goals simp_all

theorem Token.ofChars_append {w : List Char} {line : Int} (h : ofChars w line = .error .tooLong)
    (x : List Char) (line' : Int) : ∃ fault, ofChars (w ++ x) line' = .error fault := by
  obtain ⟨hnumeral, hlong⟩ := isNumeral_of_tooLong h
  have hne : Numeral.digits w ≠ [] := (Numeral.isNumeral_iff.1 hnumeral).1
  have hdigits : Numeral.digits (w ++ x) = Numeral.digits w ++ x := by
    apply Numeral.digits_append
    rintro rfl
    exact hne rfl
  have hstarts : Numeral.startsNumeral (w ++ x) = true := by
    have hw : Numeral.startsNumeral w = true := by
      rw [Numeral.isNumeral, Bool.and_eq_true] at hnumeral
      exact hnumeral.1
    rw [Numeral.startsNumeral] at hw ⊢
    rwa [hdigits, List.head?_append_of_ne_nil _ hne]
  unfold ofChars
  split
  · rw [if_neg (by rw [hdigits, List.length_append]; omega)]
    exact ⟨_, rfl⟩
  · exact ⟨_, rfl⟩

theorem Source.exists_token_append (cs q : List Char) (line line' : Int) :
    ∃ x, (token ⟨none, cs ++ q, line'⟩).1 = (token ⟨none, cs, line⟩).1 ++ x := by
  simp only [token, unread_mk_none]
  rw [List.takeWhile_append]
  split
  · next h =>
    rw [(List.takeWhile_prefix (!isDelimiter ·)).eq_of_length h]
    exact ⟨_, rfl⟩
  · exact ⟨[], by rw [List.append_nil]⟩

namespace Datum

variable {limit : Nat} {stack : List Opening} {q : List Char} {s t left : Source} {d : Datum}
  {fault : Fault}

theorem not_exceeded_malformed (line : Int) (cause : Malformation) :
    ¬ (Fault.malformed line cause).Exceeded := by
  simp [Fault.Exceeded]

theorem tooLong_of_atToken (h : Progress.atToken stack t = .failed fault left)
    (hfault : fault.Exceeded) : Token.ofChars t.token.1 t.token.2.line = .error .tooLong := by
  simp only [Progress.atToken] at h
  split at h
  · obtain ⟨cause, rfl⟩ := deliver_eq_failed h
    exact absurd hfault (not_exceeded_malformed _ _)
  · obtain ⟨cause, rfl⟩ := atDot_eq_failed h
    exact absurd hfault (not_exceeded_malformed _ _)
  · next he =>
    obtain ⟨rfl, -⟩ : _ = fault ∧ _ = left := by simpa using h
    rcases Token.ofChars_error he with rfl | ⟨cause, rfl⟩
    · exact he
    · exact absurd hfault (not_exceeded_malformed _ _)

theorem exists_advance_eq_failed (hcut : s.Cut q t) (h : advance limit stack t = .failed fault left)
    (hfault : fault.Exceeded) : ∃ fault' left', advance limit stack s = .failed fault' left' := by
  cases t.shows with
  | nothing ht hb =>
    rw [advance_end ht] at h
    rcases atEnd_eq_failed h with ⟨rfl, -⟩ | ⟨cause, rfl⟩
    · simp [Fault.Exceeded] at hfault
    · exact absurd hfault (not_exceeded_malformed _ _)
  | opening ht hb =>
    rw [advance_open ht] at h
    obtain ⟨hfull, -⟩ := opening_eq_failed_iff.1 h
    obtain ⟨line, hs⟩ := hcut.skipBlanks hb (significant_cons (by decide) (by decide))
    rw [advance_open hs]
    exact ⟨_, _, opening_eq_failed_iff.2 ⟨hfull, rfl, rfl⟩⟩
  | closing ht hb =>
    rw [advance_close ht] at h
    obtain ⟨cause, rfl⟩ := atClose_eq_failed h
    exact absurd hfault (not_exceeded_malformed _ _)
  | quoting ht hb =>
    rw [advance_quote ht] at h
    obtain ⟨hfull, -⟩ := opening_eq_failed_iff.1 h
    obtain ⟨line, hs⟩ := hcut.skipBlanks hb (significant_cons (by decide) (by decide))
    rw [advance_quote hs]
    exact ⟨_, _, opening_eq_failed_iff.2 ⟨hfull, rfl, rfl⟩⟩
  | @token c r line hc ht hb =>
    rw [advance_token ht hc] at h
    have hlong := tooLong_of_atToken h hfault
    have hsignificant : Significant (c :: r) := by
      rintro e ⟨rfl⟩
      simp_all [isDelimiter]
    obtain ⟨line', hs⟩ := hcut.skipBlanks hb hsignificant
    obtain ⟨x, htoken⟩ := Source.exists_token_append (c :: r) q line line'
    obtain ⟨fault', hfault'⟩ := Token.ofChars_append hlong x
      (Source.token ⟨none, c :: (r ++ q), line'⟩).2.line
    rw [List.cons_append] at htoken
    rw [advance_token hs hc]
    refine ⟨fault', (Source.token ⟨none, c :: (r ++ q), line'⟩).2, ?_⟩
    simp only [Progress.atToken, htoken, hfault']

/-- While a text is read that is cut off, nothing is refused for its depth or for a numeral unless
it is in the whole text. -/
theorem not_exceeded_of_resume {last : Source} (hcut : s.Cut q t)
    (hs : resume limit stack s = (.ok d, last)) (ht : resume limit stack t = (.error fault, left)) :
    ¬ fault.Exceeded := by
  fun_induction resume limit stack t generalizing s with
  | case1 stack t stack' u ha ih =>
    cases hu : u.unread with
    | nil =>
      have hend : Source.skipBlanks u = ⟨none, [], u.line⟩ := by
        rw [Source.skipBlanks, hu]
        rfl
      rw [resume_eq, advance_end hend] at ht
      revert ht
      fun_cases Progress.atEnd stack' ⟨none, [], u.line⟩
      all_goals
        rintro ⟨⟩
        simp [Fault.Exceeded]
    | cons c r =>
      have hleft : c :: r <:+ (Progress.more stack' u).source.unread := by
        rw [← hu]
        exact List.suffix_refl _
      have hbefore := (advancesTo_advance limit stack t).suffix
      rw [ha] at hbefore
      obtain ⟨u', hu', htwin⟩ := exists_advance (hcut.twin (hleft.trans hbefore)) ha hleft
      refine ih (Source.Cut.of_twin htwin) ?_ ht
      rw [resume_eq, hu'] at hs
      exact hs
  | case2 => simp at ht
  | case3 stack t fault' u ha =>
    obtain ⟨rfl, -⟩ : fault' = fault ∧ u = left := by simpa using ht
    intro hfault
    obtain ⟨fault', left', h⟩ := exists_advance_eq_failed hcut ha hfault
    rw [resume_eq, h] at hs
    simp [Progress.finish] at hs

/-- What is refused where a text was cut off is malformed, and all of it has been read. -/
theorem malformed_of_cut {last : Source} (hcut : s.Cut q t) (hs : read limit s = (.ok d, last))
    (ht : read limit t = (.error fault, left)) (hend : fault ≠ .endOfInput) :
    (∃ cause, fault = .malformed left.line cause) ∧ left.unread = [] := by
  constructor
  · rcases resume_eq_error ht with ⟨h, -⟩ | hdeep | hlong | hmalformed
    · exact absurd h hend
    · exact absurd (.inl hdeep) (not_exceeded_of_resume hcut hs ht)
    · exact absurd (.inr hlong) (not_exceeded_of_resume hcut hs ht)
    · exact hmalformed
  · by_contra hne
    obtain ⟨c, r, hu⟩ := List.exists_cons_of_ne_nil hne
    have hleft : c :: r <:+ (read limit t).2.unread := by
      rw [ht, ← hu]
    have htwin := hcut.twin (hleft.trans (advancesTo_read limit t).suffix)
    have hsame := (twin_read htwin hleft).1
    rw [hs, ht] at hsame
    exact nomatch hsame

end Datum

/-- Between `s` and `last` there are the blank `b` and the text `w`, which opens a list. -/
structure Source.TakesList (s : Source) (b w : List Char) (last : Source) : Prop where
  unread : s.unread = b ++ (w ++ last.unread)
  blank : Blank s.unread (w ++ last.unread)
  opens : w.head? = some '('

namespace Source.TakesList

variable {limit : Nat} {s t last : Source} {b w w' : List Char} {d : Datum}

theorem significant (h : s.TakesList b w last) : Significant (w ++ last.unread) := by
  obtain ⟨cs, rfl⟩ := List.head?_eq_some_iff.1 h.opens
  exact significant_cons (by decide) (by decide)

theorem isListText (h : s.TakesList b w last) (hread : Datum.read limit s = (.ok d, last)) :
    IsListText limit w := by
  obtain ⟨t, hb, hd⟩ := Datum.exists_denotes_of_read hread
  obtain rfl : w ++ last.unread = t := h.blank.unique hb h.significant hd.significant
  obtain ⟨w', heq, hw'⟩ := hd.exists_isListText (by simp [h.opens])
  obtain rfl : w = w' := List.append_cancel_right heq
  exact hw'

theorem blank_of_isPrefix (h : s.TakesList b w last) (hw' : w' ≠ []) (hpre : w' <+: w) :
    Blank (b ++ w') w' ∧ Significant w' := by
  obtain ⟨cs, rfl⟩ := List.head?_eq_some_iff.1 h.opens
  obtain ⟨b', heq, hb'⟩ := h.blank.exchange (by simp)
  obtain rfl : b = b' := List.append_cancel_right (h.unread.symm.trans heq)
  refine ⟨hb' w', ?_⟩
  obtain ⟨c, cs', rfl⟩ := List.exists_cons_of_ne_nil hw'
  obtain rfl : c = '(' := (List.cons_prefix_cons.1 hpre).1
  exact significant_cons (by decide) (by decide)

theorem read_cut (h : s.TakesList b w last) (hread : Datum.read limit s = (.ok d, last))
    (hpre : w' <+: w) (hne : w' ≠ []) (hproper : w' ≠ w) (ht : t.unread = b ++ w') :
    ∃ cause left, Datum.read limit t = (.error (.malformed left.line cause), left) ∧
      left.unread = [] := by
  have hw := h.isListText hread
  obtain ⟨hblank, hsignificant⟩ := h.blank_of_isPrefix hne hpre
  rw [← ht] at hblank
  rcases hresult : Datum.read limit t with ⟨fault | e, left⟩
  · -- The whole text is read from a source on the line of the part.
    obtain ⟨t', hb, hd⟩ := Datum.exists_denotes_of_read hread
    obtain ⟨last', hread', -⟩ := Datum.read_of_denotes (s := ⟨none, s.unread, t.line⟩) hb hd
    obtain ⟨q, rfl⟩ := hpre
    have hcut : Source.Cut (q ++ last.unread) ⟨none, s.unread, t.line⟩ t := by
      constructor
      · rw [unread_mk_none, h.unread, ht]
        simp
      · rfl
    have hend : fault ≠ .endOfInput := by
      rintro rfl
      have hnil := hblank.unique (Datum.blank_of_read hresult) hsignificant (by simp [Significant])
      exact hne hnil
    obtain ⟨⟨cause, rfl⟩, hleft⟩ := Datum.malformed_of_cut hcut hread' hresult hend
    exact ⟨cause, left, rfl, hleft⟩
  · -- A datum would be a list with a text shorter than that of the whole.
    exfalso
    obtain ⟨u, hb, hd⟩ := Datum.exists_denotes_of_read hresult
    obtain rfl : w' = u := hblank.unique hb hsignificant hd.significant
    have hopens : w'.head? = some '(' := by
      obtain ⟨c, cs, rfl⟩ := List.exists_cons_of_ne_nil hne
      obtain ⟨cs', rfl⟩ := List.head?_eq_some_iff.1 h.opens
      rw [(List.cons_prefix_cons.1 hpre).1, List.head?_cons]
    obtain ⟨v, rfl, hv⟩ := hd.exists_isListText hopens
    have hvw := hv.eq_of_isPrefix hw ((List.prefix_append v left.unread).trans hpre)
    have hlength := hpre.length_le
    apply hproper
    refine hpre.eq_of_length ?_
    rw [← hvw] at hlength ⊢
    simp at hlength ⊢
    omega

end Source.TakesList

theorem Datum.exists_takesList {limit : Nat} {s last : Source} {d : Datum}
    (hread : read limit s = (.ok d, last)) (hopen : s.nextSignificant.1 = some '(') :
    ∃ b w, s.TakesList b w last := by
  obtain ⟨t, hb, hd⟩ := exists_denotes_of_read hread
  obtain ⟨line, hskip⟩ := Source.skipBlanks_of_blank hb hd.significant
  rw [Source.nextSignificant, hskip, Source.next_fst] at hopen
  obtain ⟨w, rfl, hw⟩ := hd.exists_isListText hopen
  obtain ⟨b, hunread⟩ := hb.suffix
  exact ⟨b, w, hunread.symm, hb, hw.head?⟩

/-! ## The loop -/

namespace Session

variable {setup : Setup} {s : Session} {line : Int} {cause : Malformation} {left : Source}

/-- The session refuses all that lies ahead of it with one fault. The loop reports the fault, counts
one error more and finishes. -/
structure RefusesAll (setup : Setup) (s : Session) (fault : Fault) : Prop where
  one : ∃ left : Source, left.unread = [] ∧
    evaluateOne setup s = .error fault { s with machine.source := left }
  loop : ∀ interactive prompt, ∃ s',
    (∀ errors, Loops setup interactive prompt errors s 2 (.ok (errors + 1) s')) ∧
    run setup interactive prompt s = .ok 1 s' ∧
    .reported fault ∈ s'.journal ∧ s'.machine.store = s.machine.store

theorem refusesAll_of_read_malformed
    (h : Datum.read setup.reading s.machine.source = (.error (.malformed line cause), left))
    (hend : left.unread = []) : s.RefusesAll setup (.malformed line cause) := by
  refine ⟨⟨left, hend, evaluateOne_of_read_error h⟩, fun interactive prompt => ?_⟩
  obtain ⟨s₁, hround, hrecovers⟩ := round_of_read_malformed interactive prompt h
  have hunread : s₁.unread = [] := by
    cases hrecovers.source with
    | newline _ hu _ => simp [hend] at hu
    | atEnd _ hu _ => exact hu
  obtain ⟨s₂, hround₂, hjournal, hstore, -⟩ :=
    round_of_unread_eq_nil setup interactive prompt hunread
  have hloops : ∀ errors, Loops setup interactive prompt errors s 2 (.ok (errors + 1) s₂) :=
    fun errors => .recovered hround (.finished hround₂)
  obtain ⟨n, hrun⟩ := loops_run setup interactive prompt s
  refine ⟨s₂, hloops, (hrun.unique (hloops 0)).2, ?_, hstore.trans hrecovers.store⟩
  rw [hjournal, hrecovers.journal]
  exact List.mem_cons_self

end Session

/-- What is read from an opening parenthesis on takes up the text of a list. If this text is cut off
anywhere behind its start, then what is left of it is refused as malformed, on the line that has
been reached and with nothing left unread: no list is read from it, and no end of the input. So no
text of a list is the beginning of another, and a session reports every list that is cut off. -/
theorem truncated_list_malformed (limit : Nat) :
    (∀ (s last : Source) (d : Datum), Datum.read limit s = (.ok d, last) →
      s.nextSignificant.1 = some '(' → ∃ b w, s.TakesList b w last) ∧
    ∀ (s last : Source) (d : Datum) (b w : List Char), Datum.read limit s = (.ok d, last) →
      s.TakesList b w last →
      (∀ w', w' <+: w → w' ≠ [] → w' ≠ w → ∀ t : Source, t.unread = b ++ w' →
        ∃ cause left, Datum.read limit t = (.error (.malformed left.line cause), left) ∧
          left.unread = [] ∧
          ∀ (setup : Setup) (σ : Session), setup.reading = limit → σ.machine.source = t →
            σ.RefusesAll setup (.malformed left.line cause)) ∧
      ∀ (limit' : Nat) (s' last' : Source) (d' : Datum) (b' w' : List Char),
        Datum.read limit' s' = (.ok d', last') → s'.TakesList b' w' last' → w' <+: w → w' = w := by
  refine ⟨fun s last d => Datum.exists_takesList, fun s last d b w hread htakes => ⟨?_, ?_⟩⟩
  · intro w' hpre hne hproper t ht
    obtain ⟨cause, left, hcut, hend⟩ := htakes.read_cut hread hpre hne hproper ht
    refine ⟨cause, left, hcut, hend, ?_⟩
    rintro setup σ rfl rfl
    exact Session.refusesAll_of_read_malformed hcut hend
  · intro limit' s' last' d' b' w' hread' htakes' hpre
    exact (htakes'.isListText hread').eq_of_isPrefix (htakes.isListText hread) hpre

/-- A dotted list behind a comment, with a letter close behind it, is cut off inside of its last
numeral, and a session reports it. -/
theorem truncated_list_malformed_minus :
    let setup : Setup := ⟨.plain, 109, false⟩
    let b : List Char := [';', 'c', '\n']
    let w : List Char := ['(', '\'', 'a', ' ', '.', ' ', '-', '1', ')']
    let w' : List Char := ['(', '\'', 'a', ' ', '.', ' ', '-']
    let s : Source := .ofChars (b ++ (w ++ ['x']))
    let last : Source := ⟨none, ['x'], 2⟩
    let d : Datum := .pair (.pair (.symbol "quote") (.pair (.symbol "a") .nil)) (.int (-1))
    Datum.read 3 s = (.ok d, last) ∧
      s.TakesList b w last ∧ (w' <+: w ∧ w' ≠ [] ∧ w' ≠ w) ∧
      ∃ cause left, Datum.read 3 (.ofChars (b ++ w')) =
          (.error (.malformed left.line cause), left) ∧ left.unread = [] ∧
        Session.RefusesAll setup ⟨⟨.empty, .ofChars (b ++ w'), ""⟩, 0, []⟩
          (.malformed left.line cause) := by
  intro setup b w w' s last d
  have hread : Datum.read 3 s = (.ok d, last) := by cbv
  have htakes : s.TakesList b w last := by
    refine ⟨rfl, ?_, rfl⟩
    have hcomment : '\n' ∉ ['c'] := by decide
    exact .comment hcomment (.nil _)
  have hpre : w' <+: w ∧ w' ≠ [] ∧ w' ≠ w := by decide
  obtain ⟨hcut, -⟩ := (truncated_list_malformed 3).2 s last d b w hread htakes
  obtain ⟨cause, left, hleft, hend, hsession⟩ :=
    hcut w' hpre.1 hpre.2.1 hpre.2.2 (.ofChars (b ++ w')) (Source.unread_ofChars _)
  exact ⟨hread, htakes, hpre, cause, left, hleft, hend, hsession setup _ (by decide) rfl⟩

end Keel
