import Keel.Proofs.Reading
import Keel.Value.Printer

/-! # Printed data are read back

The plain form of a value that is made of readable data is a text of the grammar,
whatever follows it. Reading it therefore gives the same data back and stops right
behind them.
-/

namespace Keel

open Grammar

/-- A name that the reader takes for a symbol. -/
structure Ordinary (name : String) : Prop where
  ne_empty : name.toList ≠ []
  plain : ∀ c ∈ name.toList, isDelimiter c = false
  not_literal : name.toList.head? ≠ some '#'
  not_numeral : ¬ StartsNumeral name.toList
  ne_nil : name ≠ "nil"
  ne_dot : name ≠ "."

namespace Datum

/-- Integers are readable if they have a numeral, symbols if their names are ordinary. -/
def Readable : Datum → Prop
  | .int i => (Nat.toDigits 10 i.natAbs).length ≤ Numeral.maxDigits
  | .symbol name => Ordinary name
  | .pair car cdr => car.Readable ∧ cdr.Readable
  | _ => True

def nesting : Datum → Nat
  | .pair car cdr => max (car.nesting + 1) cdr.nesting
  | _ => 0

end Datum

/-! ## Atoms -/

theorem isDelimiter_of_isDigit {c : Char} (h : c.isDigit = true) : isDelimiter c = false := by
  have hc := Numeral.toNat_of_isDigit h
  have hne : ∀ d : Char, d.toNat < 48 ∨ 57 < d.toNat → c ≠ d := by
    rintro d hd rfl
    omega
  have hopen := hne '(' (by decide)
  have hclose := hne ')' (by decide)
  have hquote := hne '\'' (by decide)
  have hsemi := hne ';' (by decide)
  have hblank : Text.isBlank c = false := by
    simp [Text.isBlank, Text.isWhiteSpace]
    omega
  simp [isDelimiter, hblank, hopen, hclose, hquote, hsemi]

/-- A text that is a token wherever a delimiter or nothing follows it. -/
def Solid (w : List Char) : Prop :=
  w ≠ [] ∧ ∀ c ∈ w, isDelimiter c = false

theorem solid_of_all {w : List Char} (hn : w.isEmpty = false)
    (hp : w.all (!isDelimiter ·) = true) : Solid w := by
  refine ⟨by simpa using hn, fun c hc => ?_⟩
  simpa using List.all_eq_true.1 hp c hc

theorem Solid.isToken {w r : List Char} (h : Solid w) (hr : Delimited r) : IsToken w r :=
  ⟨h.1, h.2, hr⟩

section Numerals

variable {n : Nat} {i : Int}

theorem lt_bound (h : (Nat.toDigits 10 n).length ≤ Numeral.maxDigits) : n < Numeral.bound := by
  unfold Numeral.bound
  rw [Nat.pow_eq]
  exact (Nat.length_toDigits_le_iff (by decide) (by decide)).1 h

theorem digits_toDigits (h : (Nat.toDigits 10 n).length ≤ Numeral.maxDigits) :
    Digits (Nat.toDigits 10 n) where
  ne_nil := Nat.toDigits_ne_nil
  isDigit _ hc := Numeral.isDigit_of_mem_toDigits hc
  length_le := h

theorem solid_toDigits (n : Nat) : Solid (Nat.toDigits 10 n) :=
  ⟨Nat.toDigits_ne_nil, fun _ hc => isDelimiter_of_isDigit (Numeral.isDigit_of_mem_toDigits hc)⟩

theorem exists_chars? (h : (Nat.toDigits 10 i.natAbs).length ≤ Numeral.maxDigits) :
    ∃ w, Numeral.chars? i = some w ∧ Solid w ∧ Atom w (.int i) := by
  cases i with
  | ofNat n =>
    have hn : n < Numeral.bound := lt_bound h
    refine ⟨Nat.toDigits 10 n, by simp [Numeral.chars?, hn], solid_toDigits n, ?_⟩
    have ha := Atom.natural (digits_toDigits h)
    rwa [Int.natAbs_ofNat', Nat.ofDigitChars_ten_toDigits] at ha
  | negSucc n =>
    have hn : n + 1 < Numeral.bound := lt_bound h
    obtain ⟨-, hp⟩ := solid_toDigits (n + 1)
    have hp' : ∀ c ∈ '-' :: Nat.toDigits 10 (n + 1), isDelimiter c = false :=
      List.forall_mem_cons.2 ⟨by decide, hp⟩
    refine ⟨'-' :: Nat.toDigits 10 (n + 1), by simp [Numeral.chars?, hn],
      ⟨List.cons_ne_nil _ _, hp'⟩, ?_⟩
    have ha := Atom.negative (digits_toDigits h)
    rwa [Nat.ofDigitChars_ten_toDigits] at ha

end Numerals

theorem Ordinary.atom {name : String} (h : Ordinary name) :
    Atom name.toList (.symbol name) := by
  have ha := Atom.symbol h.not_numeral h.not_literal (fun hn => h.ne_nil ?_) (fun hd => h.ne_dot ?_)
  · rwa [String.ofList_toList] at ha
  · rw [← String.ofList_toList (s := name), hn]
  · rw [← String.ofList_toList (s := name), hd]

namespace Value

variable {names : ClosureId → Option String} {v : Value} {d : Datum}

theorem render_eq_renderFlat (limit : Nat) (hp : v.isPair = false) :
    v.render names limit = v.renderFlat names := by
  cases v with
  | pair => cases hp
  | _ => rw [render]; simp

theorem renderRest_eq_renderFlat (inner : Nat) (hp : v.isPair = false) (hn : v ≠ .nil) :
    v.renderRest names inner = (v.renderFlat names).map (" . " ++ · ++ ")") := by
  cases v with
  | pair => cases hp
  | nil => exact absurd rfl hn
  | _ => rfl

theorem exists_renderFlat (hv : v.toDatum? = some d) (hp : v.isPair = false) (hr : d.Readable) :
    ∃ w, v.renderFlat names = .ok (String.ofList w) ∧ Solid w ∧ Atom w d := by
  cases v with
  | int i =>
    obtain rfl : Datum.int i = d := by simpa [toDatum?] using hv
    obtain ⟨w, hw, hs, ha⟩ := exists_chars? hr
    exact ⟨w, by simp only [renderFlat, numeral, hw]; rfl, hs, ha⟩
  | bool b =>
    obtain rfl : Datum.bool b = d := by simpa [toDatum?] using hv
    cases b with
    | false => exact ⟨['#', 'f'], rfl, solid_of_all rfl rfl, .false⟩
    | true => exact ⟨['#', 't'], rfl, solid_of_all rfl rfl, .true⟩
  | symbol name =>
    obtain rfl : Datum.symbol name = d := by simpa [toDatum?] using hv
    have ho : Ordinary name := hr
    refine ⟨name.toList, ?_, ⟨ho.ne_empty, ho.plain⟩, ho.atom⟩
    rw [String.ofList_toList]
    rfl
  | nil =>
    obtain rfl : Datum.nil = d := by simpa [toDatum?] using hv
    exact ⟨['n', 'i', 'l'], rfl, solid_of_all rfl rfl, .nil⟩
  | pair => simp [isPair] at hp
  | primitive => simp [toDatum?] at hv
  | closure => simp [toDatum?] at hv
  | absent => simp [toDatum?] at hv
  | text => simp [toDatum?] at hv

/-! ## Lists -/

/-- The plain form of the data `d` denotes them, in front of any delimiter, and in front of
anything if it is a list. -/
def Prints (names : ClosureId → Option String) (limit : Nat) (v : Value) (d : Datum) : Prop :=
  ∃ text, v.render names limit = .ok text ∧
    ∀ r, v.isPair = true ∨ Delimited r → Denotes limit (text.toList ++ r) r d

/-- What is printed behind an item of a list gives the other items and the end of the list. -/
def PrintsRest (names : ClosureId → Option String) (inner : Nat) (v : Value) (d : Datum) : Prop :=
  ∃ text items dotted tail, v.renderRest names inner = .ok text ∧ d = .listTo items tail ∧
    ∀ r, Delimited (text.toList ++ r) ∧
      ∃ t, Items inner (text.toList ++ r) t items ∧ Datum.Ending inner dotted t r tail

theorem prints_atom (limit : Nat) (hv : v.toDatum? = some d) (hp : v.isPair = false)
    (hr : d.Readable) : Prints names limit v d := by
  obtain ⟨w, hw, hs, ha⟩ := exists_renderFlat hv hp hr
  refine ⟨String.ofList w, by rw [render_eq_renderFlat limit hp, hw], fun r h => ?_⟩
  rw [String.toList_ofList]
  exact .atom (hs.isToken (h.resolve_left (by simp [hp]))) ha

theorem printsRest_nil (inner : Nat) : PrintsRest names inner .nil .nil := by
  refine ⟨")", [], false, .nil, rfl, rfl, fun r => ⟨delimited_cons (by decide), ?_⟩⟩
  exact ⟨_, .nil _ _, .proper (.nil _)⟩

theorem printsRest_atom (inner : Nat) (hv : v.toDatum? = some d) (hp : v.isPair = false)
    (hn : v ≠ .nil) (hr : d.Readable) : PrintsRest names inner v d := by
  obtain ⟨w, hw, hs, ha⟩ := exists_renderFlat hv hp hr
  refine ⟨" . " ++ String.ofList w ++ ")", [], true, d, ?_, rfl, fun r => ?_⟩
  · rw [renderRest_eq_renderFlat inner hp hn, hw]
    rfl
  · have ht : (" . " ++ String.ofList w ++ ")").toList ++ r =
        ' ' :: '.' :: ' ' :: (w ++ ')' :: r) := by
      simp
    have hd : Denotes inner (w ++ ')' :: r) (')' :: r) d :=
      .atom (hs.isToken (delimited_cons (by decide))) ha
    have hdot : IsToken ['.'] (' ' :: (w ++ ')' :: r)) :=
      (solid_of_all rfl rfl).isToken (delimited_cons (by decide))
    rw [ht]
    refine ⟨delimited_cons (by decide), _, .nil _ _, ?_⟩
    exact .dotted (.space (by decide) (.nil _)) hdot (.space (by decide) (.nil _)) hd (.nil _)

theorem prints_pair {id : Identity} {car cdr : Value} {a b : Datum} {inner : Nat}
    (ha : Prints names inner car a) (hb : PrintsRest names inner cdr b) :
    Prints names (inner + 1) (.pair id car cdr) (.pair a b) := by
  obtain ⟨first, hfirst, ha⟩ := ha
  obtain ⟨rest, items, dotted, tail, hrest, rfl, hb⟩ := hb
  refine ⟨"(" ++ first ++ rest, by simp only [render, hfirst, hrest]; rfl, fun r _ => ?_⟩
  obtain ⟨hdel, t, hi, he⟩ := hb r
  have ht : ("(" ++ first ++ rest).toList ++ r = '(' :: (first.toList ++ (rest.toList ++ r)) := by
    simp
  have hi' := Items.cons (.nil _) (ha _ (.inr hdel)) hi
  rw [ht]
  exact he.denotes hi' fun _ => List.cons_ne_nil _ _

theorem printsRest_pair {id : Identity} {car cdr : Value} {a b : Datum} {inner : Nat}
    (ha : Prints names inner car a) (hb : PrintsRest names inner cdr b) :
    PrintsRest names inner (.pair id car cdr) (.pair a b) := by
  obtain ⟨first, hfirst, ha⟩ := ha
  obtain ⟨rest, items, dotted, tail, hrest, rfl, hb⟩ := hb
  refine ⟨" " ++ first ++ rest, a :: items, dotted, tail,
    by simp only [renderRest, hfirst, hrest]; rfl, rfl, fun r => ?_⟩
  obtain ⟨hdel, t, hi, he⟩ := hb r
  have ht : (" " ++ first ++ rest).toList ++ r = ' ' :: (first.toList ++ (rest.toList ++ r)) := by
    simp
  rw [ht]
  exact ⟨delimited_cons (by decide), t,
    .cons (.space (by decide) (.nil _)) (ha _ (.inr hdel)) hi, he⟩

/-- The two recursive functions of the printer, together. -/
theorem prints_and_printsRest (hv : v.toDatum? = some d) (hr : d.Readable) :
    (∀ limit, d.nesting ≤ limit → Prints names limit v d) ∧
      ∀ inner, d.nesting ≤ inner + 1 → PrintsRest names inner v d := by
  induction v generalizing d with
  | pair id car cdr ihcar ihcdr =>
    obtain ⟨a, b, ha, hb, rfl⟩ : ∃ a b, car.toDatum? = some a ∧ cdr.toDatum? = some b ∧
        Datum.pair a b = d := by
      simpa [toDatum?, Option.bind_eq_some_iff] using hv
    obtain ⟨hra, hrb⟩ := hr
    obtain ⟨hcar, -⟩ := ihcar ha hra
    obtain ⟨-, hcdr⟩ := ihcdr hb hrb
    simp only [Datum.nesting, Nat.max_le]
    constructor
    · rintro limit ⟨hna, hnb⟩
      obtain ⟨inner, rfl⟩ : ∃ inner, limit = inner + 1 := ⟨limit - 1, by omega⟩
      exact prints_pair (hcar inner (by omega)) (hcdr inner hnb)
    · rintro inner ⟨hna, hnb⟩
      exact printsRest_pair (hcar inner (by omega)) (hcdr inner hnb)
  | nil =>
    obtain rfl : Datum.nil = d := by simpa [toDatum?] using hv
    exact ⟨fun limit _ => prints_atom limit rfl rfl trivial, fun inner _ => printsRest_nil inner⟩
  | _ =>
    exact ⟨fun limit _ => prints_atom limit hv rfl hr,
      fun inner _ => printsRest_atom inner hv rfl (by simp) hr⟩

/-- A value made of readable data prints, and reading what was printed gives the same data back and
leaves exactly what follows: a text that does not run into the last token, or after a list any
text at all. -/
theorem read_render {limit : Nat} (names : ClosureId → Option String) {v : Value} {d : Datum}
    (hv : v.toDatum? = some d) (hr : d.Readable) (hn : d.nesting ≤ limit) :
    ∃ text, v.render names limit = .ok text ∧
      ∀ (rest : List Char) (s : Source), v.isPair = true ∨ Delimited rest →
        s.unread = text.toList ++ rest →
        ∃ after, Datum.read limit s = (.ok d, after) ∧ after.unread = rest := by
  obtain ⟨text, ht, h⟩ := (prints_and_printsRest hv hr).1 limit hn
  refine ⟨text, ht, fun rest s hrest hs => ?_⟩
  exact Datum.read_of_denotes (hs ▸ .nil _) (h rest hrest)

theorem ordinary_minus : Ordinary "-" where
  ne_empty := by simp
  plain := (solid_of_all (w := ['-']) rfl rfl).2
  not_literal := by simp
  not_numeral := by
    rintro ⟨c, cs, hc, h | h⟩
    · obtain ⟨rfl, -⟩ : '-' = c ∧ _ := by simpa using h
      exact absurd hc (by decide)
    · simp at h
  ne_nil := by decide
  ne_dot := by decide

/-- The list that prints as `((- . -12) nil . #t)`, in front of a letter. -/
theorem read_render_dotted :
    ∃ text, (Value.pair 0 (.pair 1 (.symbol "-") (.int (-12))) (.pair 2 .nil (.bool true))).render
        (fun _ => none) 2 = .ok text ∧
      ∀ s : Source, s.unread = text.toList ++ ['a'] → ∃ after,
        Datum.read 2 s = (.ok (.pair (.pair (.symbol "-") (.int (-12))) (.pair .nil (.bool true))),
          after) ∧ after.unread = ['a'] := by
  have hr : (Datum.pair (.pair (.symbol "-") (.int (-12))) (.pair .nil (.bool true))).Readable :=
    ⟨⟨ordinary_minus, by simp only [Datum.Readable]; decide⟩, trivial, trivial⟩
  have hn :
      (Datum.pair (.pair (.symbol "-") (.int (-12))) (.pair .nil (.bool true))).nesting ≤ 2 := by
    decide
  obtain ⟨text, ht, h⟩ := read_render (fun _ => none)
    (v := .pair 0 (.pair 1 (.symbol "-") (.int (-12))) (.pair 2 .nil (.bool true))) rfl hr hn
  exact ⟨text, ht, fun s => h ['a'] s (.inl rfl)⟩

end Value

end Keel
