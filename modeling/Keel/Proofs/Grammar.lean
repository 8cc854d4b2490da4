import Keel.Datum.Token

/-! # The grammar of data

The written forms of data as relations between a text and what remains of it.
A derivation bounds how many lists and quotes are open at once, and it leaves no
choice about where a token ends: tokens are as long as they can be.
-/

namespace Keel.Grammar

/-- A text that no token in front of it can run into. -/
def Delimited (r : List Char) : Prop :=
  ∀ c ∈ r.head?, isDelimiter c = true

/-- A text that starts with neither a blank nor a comment. -/
def Significant (r : List Char) : Prop :=
  ∀ c ∈ r.head?, Text.isBlank c = false ∧ c ≠ ';'

/-- From `t` to `r` there are blank characters and comments only. A comment ends behind
the next newline, or else with the text. -/
inductive Blank : List Char → List Char → Prop where
  | nil (r : List Char) : Blank r r
  | space {c : Char} {t r : List Char} : Text.isBlank c = true → Blank t r → Blank (c :: t) r
  | comment {body t r : List Char} : '\n' ∉ body → Blank t r → Blank (';' :: body ++ '\n' :: t) r
  | lastComment {body : List Char} : '\n' ∉ body → Blank (';' :: body) []

structure IsToken (w r : List Char) : Prop where
  ne_nil : w ≠ []
  plain : ∀ c ∈ w, isDelimiter c = false
  delimited : Delimited r

structure Digits (cs : List Char) : Prop where
  ne_nil : cs ≠ []
  isDigit : ∀ c ∈ cs, c.isDigit = true
  length_le : cs.length ≤ Numeral.maxDigits

def StartsNumeral (w : List Char) : Prop :=
  ∃ c cs, c.isDigit = true ∧ (w = c :: cs ∨ w = '-' :: c :: cs)

/-- What a token denotes. The lone dot denotes nothing. -/
inductive Atom : List Char → Datum → Prop where
  | natural {cs : List Char} : Digits cs → Atom cs (.int (Nat.ofDigitChars 10 cs 0 : Nat))
  | negative {cs : List Char} : Digits cs →
      Atom ('-' :: cs) (.int (-(Nat.ofDigitChars 10 cs 0 : Nat)))
  | true : Atom ['#', 't'] (.bool true)
  | false : Atom ['#', 'f'] (.bool false)
  | nil : Atom ['n', 'i', 'l'] .nil
  | symbol {w : List Char} : ¬ StartsNumeral w → w.head? ≠ some '#' → w ≠ ['n', 'i', 'l'] →
      w ≠ ['.'] → Atom w (.symbol (String.ofList w))

mutual

/-- From `t` to `r` there is a datum, in which at most `n` lists and quotes are open at once. -/
inductive Denotes : (n : Nat) → (t r : List Char) → Datum → Prop where
  | atom {n : Nat} {w r : List Char} {d : Datum} :
      IsToken w r → Atom w d → Denotes n (w ++ r) r d
  | quote {n : Nat} {t t' r : List Char} {d : Datum} :
      Blank t t' → Denotes n t' r d →
      Denotes (n + 1) ('\'' :: t) r (.list [.symbol "quote", d])
  | list {n : Nat} {t t' r : List Char} {items : List Datum} :
      Items n t t' items → Blank t' (')' :: r) → Denotes (n + 1) ('(' :: t) r (.list items)
  | dotted {n : Nat} {t t₁ t₂ t₃ t₄ r : List Char} {items : List Datum} {tail : Datum} :
      Items n t t₁ items → items ≠ [] → Blank t₁ ('.' :: t₂) → IsToken ['.'] t₂ →
      Blank t₂ t₃ → Denotes n t₃ t₄ tail → Blank t₄ (')' :: r) →
      Denotes (n + 1) ('(' :: t) r (.listTo items tail)

/-- From `t` to `r` there are data, each with a blank before it. -/
inductive Items : (n : Nat) → (t r : List Char) → List Datum → Prop where
  | nil (n : Nat) (r : List Char) : Items n r r []
  | cons {n : Nat} {t t₁ t₂ r : List Char} {d : Datum} {items : List Datum} :
      Blank t t₁ → Denotes n t₁ t₂ d → Items n t₂ r items → Items n t r (d :: items)

end

theorem Blank.suffix {t r : List Char} (h : Blank t r) : r <:+ t := by
  induction h with
  | nil r => exact List.suffix_rfl
  | space _ _ ih => exact ih.trans (List.suffix_cons _ _)
  | @comment body t r _ _ ih => exact ih.trans ⟨';' :: body ++ ['\n'], by simp⟩
  | lastComment _ => exact List.nil_suffix

theorem significant_cons {c : Char} {cs : List Char} (hb : Text.isBlank c = false) (hc : c ≠ ';') :
    Significant (c :: cs) := by
  intro d hd
  obtain rfl : c = d := by simpa using hd
  exact ⟨hb, hc⟩

theorem IsToken.significant {w r : List Char} (h : IsToken w r) : Significant (w ++ r) := by
  cases w with
  | nil => exact absurd rfl h.ne_nil
  | cons c cs =>
    have hc := h.plain c List.mem_cons_self
    simp only [isDelimiter, Bool.or_eq_false_iff, beq_eq_false_iff_ne] at hc
    exact significant_cons hc.1.1.1.1 hc.2

theorem delimited_cons {c : Char} {cs : List Char} (h : isDelimiter c = true) :
    Delimited (c :: cs) := by
  rintro d ⟨rfl⟩
  exact h

/-! ## What follows a datum

A datum is what it is by its own text. What follows it may be exchanged for anything
that no token at its end can run into.
-/

theorem Delimited.exchange {w r x : List Char} (h : Delimited (w ++ r))
    (hx : Delimited r → Delimited x) : Delimited (w ++ x) := by
  cases w with
  | nil => exact hx h
  | cons c w => exact h

theorem Blank.delimited {t r : List Char} (h : Blank t r) (hr : Delimited r) : Delimited t := by
  cases h with
  | nil => exact hr
  | space hc _ => exact delimited_cons (by simp [isDelimiter, hc])
  | comment _ _ => exact delimited_cons rfl
  | lastComment _ => exact delimited_cons rfl

/-- Only at the end of a text does a comment depend on it. -/
theorem Blank.exchange {t r : List Char} (h : Blank t r) (hr : r ≠ []) :
    ∃ b, t = b ++ r ∧ ∀ x, Blank (b ++ x) x := by
  induction h with
  | nil r => exact ⟨[], rfl, .nil⟩
  | @space c t r hc _ ih =>
    obtain ⟨b, rfl, hb⟩ := ih hr
    exact ⟨c :: b, rfl, fun x => .space hc (hb x)⟩
  | @comment body t r hn _ ih =>
    obtain ⟨b, rfl, hb⟩ := ih hr
    refine ⟨';' :: body ++ '\n' :: b, by simp, fun x => ?_⟩
    rw [List.append_assoc]
    exact .comment hn (hb x)
  | lastComment _ => exact absurd rfl hr

theorem IsToken.head?_ne {w r : List Char} {c : Char} (h : IsToken w r)
    (hc : isDelimiter c = true) : (w ++ r).head? ≠ some c := by
  obtain ⟨d, w, rfl⟩ := List.exists_cons_of_ne_nil h.ne_nil
  rintro ⟨rfl⟩
  exact absurd hc (by rw [h.plain c List.mem_cons_self]; exact Bool.false_ne_true)

mutual

/-- A list ends with its parenthesis, whatever follows. -/
theorem Denotes.exchange {n : Nat} {t r : List Char} {d : Datum} :
    Denotes n t r d → ∃ w, w ≠ [] ∧ t = w ++ r ∧
      ∀ x, (t.head? ≠ some '(' → Delimited r → Delimited x) → Denotes n (w ++ x) x d
  | .atom hw hd => by
    refine ⟨_, hw.ne_nil, rfl, fun x hx => ?_⟩
    have hdelimited := hx (hw.head?_ne rfl) hw.delimited
    exact .atom ⟨hw.ne_nil, hw.plain, hdelimited⟩ hd
  | .quote hb hd => by
    obtain ⟨w, hne, rfl, hw⟩ := hd.exchange
    obtain ⟨b, rfl, hb'⟩ := hb.exchange (by simp [hne])
    refine ⟨'\'' :: (b ++ w), by simp, by simp, fun x hx => ?_⟩
    rw [List.cons_append, List.append_assoc]
    exact .quote (hb' (w ++ x)) (hw x fun _ => hx (by simp))
  | .list hi hb => by
    obtain ⟨b, rfl, hb'⟩ := hb.exchange (List.cons_ne_nil _ _)
    obtain ⟨w, rfl, hw⟩ := hi.exchange
    refine ⟨'(' :: (w ++ b ++ [')']), by simp, by simp, fun x _ => ?_⟩
    have hclose := hb' (')' :: x)
    have hitems := hw _ fun _ => hclose.delimited (delimited_cons rfl)
    simpa using Denotes.list hitems hclose
  | .dotted hi hne hb hdot hb' hd hb'' => by
    obtain ⟨b₃, rfl, hclose⟩ := hb''.exchange (List.cons_ne_nil _ _)
    obtain ⟨w', hne', rfl, hw'⟩ := hd.exchange
    obtain ⟨b₂, rfl, hb₂⟩ := hb'.exchange (by simp [hne'])
    obtain ⟨b₁, rfl, hb₁⟩ := hb.exchange (List.cons_ne_nil _ _)
    obtain ⟨w, rfl, hw⟩ := hi.exchange
    refine ⟨'(' :: (w ++ b₁ ++ '.' :: (b₂ ++ w' ++ b₃ ++ [')'])), by simp, by simp, fun x _ => ?_⟩
    have hclose := hclose (')' :: x)
    have htail := hw' _ fun _ _ => hclose.delimited (delimited_cons rfl)
    have hbehind : Delimited (b₂ ++ (w' ++ (b₃ ++ ')' :: x))) := by
      have hdelimited := hdot.delimited
      rw [← List.append_assoc] at hdelimited ⊢
      exact hdelimited.exchange fun _ => hclose.delimited (delimited_cons rfl)
    have hitems := hw (b₁ ++ '.' :: (b₂ ++ (w' ++ (b₃ ++ ')' :: x)))) fun h => by
      rw [List.append_cons] at h ⊢
      exact h.exchange fun _ => hbehind
    simpa using Denotes.dotted hitems hne (hb₁ _) ⟨hdot.ne_nil, hdot.plain, hbehind⟩ (hb₂ _)
      htail hclose

theorem Items.exchange {n : Nat} {t r : List Char} {items : List Datum} :
    Items n t r items → ∃ w, t = w ++ r ∧
      ∀ x, (Delimited r → Delimited x) → Items n (w ++ x) x items
  | .nil _ _ => ⟨[], rfl, fun x _ => .nil _ x⟩
  | .cons hb hd hi => by
    obtain ⟨w', rfl, hw'⟩ := hi.exchange
    obtain ⟨w, hne, rfl, hw⟩ := hd.exchange
    obtain ⟨b, rfl, hb'⟩ := hb.exchange (by simp [hne])
    refine ⟨b ++ w ++ w', by simp, fun x hx => ?_⟩
    rw [List.append_assoc, List.append_assoc]
    exact .cons (hb' _) (hw _ fun _ h => h.exchange hx) (hw' x hx)

end

variable {n : Nat} {t r : List Char} {d : Datum} {items : List Datum}

theorem Denotes.eq_append (h : Denotes n t r d) : ∃ w, w ≠ [] ∧ t = w ++ r := by
  obtain ⟨w, hw, heq, -⟩ := h.exchange
  exact ⟨w, hw, heq⟩

theorem Items.eq_append (h : Items n t r items) : ∃ w, t = w ++ r := by
  obtain ⟨w, heq, -⟩ := h.exchange
  exact ⟨w, heq⟩

theorem Denotes.length_lt (h : Denotes n t r d) : r.length < t.length := by
  obtain ⟨w, hw, rfl⟩ := h.eq_append
  have := List.length_pos_iff.2 hw
  rw [List.length_append]
  omega

theorem Denotes.ne_nil (h : Denotes n t r d) : t ≠ [] := by
  rintro rfl
  exact absurd h.length_lt (Nat.not_lt_zero _)

end Keel.Grammar
