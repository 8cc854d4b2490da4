import Keel.Proofs.RoundTrip
import Keel.Session.Basic

/-! # Reading is a retraction

What is read is made of readable data, because every token becomes an atom that
prints as a token again. So whatever has been read prints, and reading what was
printed gives it back. A symbol whose name no token can have prints as well, but
then something else is read.
-/

namespace Keel

open Grammar

namespace Datum

def integers : Datum → List Int
  | .int i => [i]
  | .pair car cdr => car.integers ++ cdr.integers
  | _ => []

def symbols : Datum → List String
  | .symbol name => [name]
  | .pair car cdr => car.symbols ++ cdr.symbols
  | _ => []

def HasNumerals (d : Datum) : Prop :=
  ∀ i ∈ d.integers, (Nat.toDigits 10 i.natAbs).length ≤ Numeral.maxDigits

theorem hasNumerals_pair {car cdr : Datum} :
    (pair car cdr).HasNumerals ↔ car.HasNumerals ∧ cdr.HasNumerals :=
  List.forall_mem_append

theorem readable_iff (d : Datum) :
    d.Readable ↔ d.HasNumerals ∧ ∀ name ∈ d.symbols, Ordinary name := by
  induction d with
  | pair car cdr ihcar ihcdr =>
    rw [Readable, ihcar, ihcdr, hasNumerals_pair, symbols, List.forall_mem_append,
      and_and_and_comm]
  | _ => simp [Readable, HasNumerals, integers, symbols]

/-- The datum is readable, and no more than `n` lists are open at once in its plain form. -/
structure Fits (n : Nat) (d : Datum) : Prop where
  readable : d.Readable
  nesting_le : d.nesting ≤ n

theorem Fits.pair {n : Nat} {car cdr : Datum} (hcar : car.Fits n) (hcdr : cdr.Fits (n + 1)) :
    (pair car cdr).Fits (n + 1) where
  readable := ⟨hcar.readable, hcdr.readable⟩
  nesting_le := by
    have hle := hcar.nesting_le
    exact Nat.max_le.2 ⟨by omega, hcdr.nesting_le⟩

theorem fits_listTo {n : Nat} {items : List Datum} {tail : Datum} (hitems : ∀ d ∈ items, d.Fits n)
    (htail : tail.Fits (n + 1)) : (listTo items tail).Fits (n + 1) := by
  induction items with
  | nil => exact htail
  | cons item items ih =>
    obtain ⟨hitem, hitems⟩ := List.forall_mem_cons.1 hitems
    exact hitem.pair (ih hitems)

theorem Fits.mono {n n' : Nat} {d : Datum} (h : d.Fits n) (hn : n ≤ n') : d.Fits n' :=
  ⟨h.readable, Nat.le_trans h.nesting_le hn⟩

end Datum

/-! ## What is read is readable -/

theorem ordinary_quote : Ordinary "quote" where
  ne_empty := by simp
  plain := (solid_of_all (w := ['q', 'u', 'o', 't', 'e']) rfl rfl).2
  not_literal := by simp
  not_numeral := by
    rintro ⟨c, cs, hc, h | h⟩
    · obtain ⟨rfl, -⟩ : 'q' = c ∧ _ := by simpa using h
      exact absurd hc (by decide)
    · simp at h
  ne_nil := by decide
  ne_dot := by decide

namespace Grammar

variable {n : Nat} {t r w : List Char} {d : Datum}

theorem ofDigitChars_lt {cs : List Char} (h : ∀ c ∈ cs, c.isDigit = true) :
    Nat.ofDigitChars 10 cs 0 < Nat.pow 10 cs.length := by
  show Nat.ofDigitChars 10 cs 0 < 10 ^ cs.length
  induction cs with
  | nil => decide
  | cons c cs ih =>
    obtain ⟨hc, hcs⟩ := List.forall_mem_cons.1 h
    have hdigit := Numeral.toNat_of_isDigit hc
    have hle : 10 ^ cs.length * (c.toNat - 48) ≤ 10 ^ cs.length * 9 :=
      Nat.mul_le_mul_left _ (by omega)
    have hrest := ih hcs
    rw [Nat.ofDigitChars_cons, Nat.ofDigitChars_eq_ofDigitChars_zero, List.length_cons, Nat.pow_succ]
    simp only [Nat.mul_zero, Nat.zero_add, show '0'.toNat = 48 from rfl]
    omega

/-- Leading zeros are dropped, so the digits of a numeral do not become more. -/
theorem Digits.length_toDigits_le {cs : List Char} (h : Digits cs) :
    (Nat.toDigits 10 (Nat.ofDigitChars 10 cs 0)).length ≤ Numeral.maxDigits := by
  refine Nat.le_trans ?_ h.length_le
  rw [Nat.length_toDigits_le_iff (by decide) (List.length_pos_iff.2 h.ne_nil)]
  exact ofDigitChars_lt h.isDigit

theorem Atom.readable (h : Atom w d) (hw : IsToken w r) : d.Readable := by
  cases h with
  | natural hd => exact hd.length_toDigits_le
  | negative hd =>
    rw [Datum.Readable, Int.natAbs_neg]
    exact hd.length_toDigits_le
  | symbol hnumeral hliteral hnil hdot =>
    have hname : (String.ofList w).toList = w := String.toList_ofList
    constructor
    · rw [hname]
      exact hw.ne_nil
    · rw [hname]
      exact hw.plain
    · rw [hname]
      exact hliteral
    · rw [hname]
      exact hnumeral
    · intro heq
      exact hnil (by rw [← hname, heq]; rfl)
    · intro heq
      exact hdot (by rw [← hname, heq]; rfl)
  | _ => trivial

theorem Atom.nesting_eq (h : Atom w d) : d.nesting = 0 := by
  cases h <;> rfl

mutual

theorem Denotes.fits {n : Nat} {t r : List Char} {d : Datum} : Denotes n t r d → d.Fits n
  | .atom hw hd => ⟨hd.readable hw, hd.nesting_eq ▸ Nat.zero_le _⟩
  | @Denotes.quote n _ _ _ d _ hd => by
    have hnil : Datum.nil.Fits (n + 1) := ⟨trivial, Nat.zero_le _⟩
    have hquote : (Datum.symbol "quote").Fits n := ⟨ordinary_quote, Nat.zero_le _⟩
    exact hquote.pair (hd.fits.pair hnil)
  | .list hi _ => Datum.fits_listTo hi.fits ⟨trivial, Nat.zero_le _⟩
  | .dotted hi _ _ _ _ hd _ => Datum.fits_listTo hi.fits (hd.fits.mono (Nat.le_succ _))

theorem Items.fits {n : Nat} {t r : List Char} {items : List Datum} :
    Items n t r items → ∀ d ∈ items, d.Fits n
  | .nil _ _ => fun _ hd => nomatch hd
  | .cons _ hd hi => List.forall_mem_cons.2 ⟨hd.fits, hi.fits⟩

end

end Grammar

theorem Datum.fits_of_read {limit : Nat} {s after : Source} {d : Datum}
    (h : read limit s = (.ok d, after)) : d.Fits limit := by
  obtain ⟨t, -, hd⟩ := exists_denotes_of_read h
  exact hd.fits

/-! ## What prints and what is read back -/

namespace Value

variable (names : ClosureId → Option String) {v : Value} {d : Datum}

theorem exists_renderFlat_of_hasNumerals (hv : v.toDatum? = some d) (hp : v.isPair = false)
    (hd : d.HasNumerals) : ∃ text, v.renderFlat names = .ok text := by
  cases v with
  | int i =>
    obtain rfl : Datum.int i = d := by simpa [toDatum?] using hv
    obtain ⟨w, hw, -⟩ := exists_chars? (hd i List.mem_cons_self)
    exact ⟨String.ofList w, by simp only [renderFlat, numeral, hw]; rfl⟩
  | pair => simp [isPair] at hp
  | _ => exact ⟨_, rfl⟩

theorem exists_render_and_renderRest (hv : v.toDatum? = some d) (hd : d.HasNumerals) :
    (∀ limit, d.nesting ≤ limit → ∃ text, v.render names limit = .ok text) ∧
      ∀ inner, d.nesting ≤ inner + 1 → ∃ text, v.renderRest names inner = .ok text := by
  induction v generalizing d with
  | pair id car cdr ihcar ihcdr =>
    obtain ⟨a, b, ha, hb, rfl⟩ : ∃ a b, car.toDatum? = some a ∧ cdr.toDatum? = some b ∧
        Datum.pair a b = d := by
      simpa [toDatum?, Option.bind_eq_some_iff] using hv
    obtain ⟨hda, hdb⟩ := Datum.hasNumerals_pair.1 hd
    obtain ⟨hcar, -⟩ := ihcar ha hda
    obtain ⟨-, hcdr⟩ := ihcdr hb hdb
    simp only [Datum.nesting, Nat.max_le]
    constructor
    · rintro limit ⟨hna, hnb⟩
      obtain ⟨inner, rfl⟩ : ∃ inner, limit = inner + 1 := ⟨limit - 1, by omega⟩
      obtain ⟨first, hfirst⟩ := hcar inner (by omega)
      obtain ⟨rest, hrest⟩ := hcdr inner hnb
      exact ⟨"(" ++ first ++ rest, by simp only [render, hfirst, hrest]; rfl⟩
    · rintro inner ⟨hna, hnb⟩
      obtain ⟨item, hitem⟩ := hcar inner (by omega)
      obtain ⟨rest, hrest⟩ := hcdr inner hnb
      exact ⟨" " ++ item ++ rest, by simp only [renderRest, hitem, hrest]; rfl⟩
  | nil => exact ⟨fun limit _ => ⟨_, rfl⟩, fun inner _ => ⟨_, rfl⟩⟩
  | _ =>
    obtain ⟨text, htext⟩ := exists_renderFlat_of_hasNumerals names hv rfl hd
    constructor
    · intro limit _
      exact ⟨text, by rw [render_eq_renderFlat limit rfl, htext]⟩
    · intro inner _
      exact ⟨" . " ++ text ++ ")", by rw [renderRest_eq_renderFlat inner rfl (by simp), htext]; rfl⟩

end Value

def ReadsAs (limit : Nat) (text : String) (d : Datum) : Prop :=
  ∃ after, Datum.read limit (.ofString text) = (.ok d, after) ∧ after.unread = []

theorem Value.exists_readsAs {limit : Nat} (names : ClosureId → Option String) {v : Value}
    {d : Datum} (hv : v.toDatum? = some d) (hd : d.Fits limit) :
    ∃ text, v.render names limit = .ok text ∧ ReadsAs limit text d := by
  obtain ⟨text, htext, hdenotes⟩ := (prints_and_printsRest hv hd.readable).1 limit hd.nesting_le
  have hend : Delimited [] := by simp [Delimited]
  have htoken := hdenotes [] (.inr hend)
  rw [List.append_nil] at htoken
  exact ⟨text, htext, Datum.read_of_denotes (.nil text.toList) htoken⟩

namespace Session

variable {setup : Setup} {s s' : Session} {v : Value}

theorem toDatum?_of_accept {d : Datum} {line : Int} (h : accept setup d line s = .ok v s') :
    v.toDatum? = some d := by
  have hload : perform (Action.updating (·.load d)) s =
      .ok (s.machine.store.load d).1
        { s with machine := { s.machine with store := (s.machine.store.load d).2 } } := rfl
  have haccept := (bind_of_eq_ok hload).symm.trans h
  obtain ⟨_, t, -, hpure⟩ := exists_of_bind_eq_ok haccept
  obtain ⟨rfl, -⟩ := EStateM.Result.ok.inj hpure
  exact Value.toDatum?_ofDatum d _

theorem readText_of_read {code : String} {d : Datum} {rest : Source}
    (h : Datum.read setup.reading (.ofString code) = (.ok d, rest)) :
    readText setup code = accept setup d rest.line := by
  unfold readText
  rw [h]
  rfl

theorem readText_of_unreadable {code : String} {fault : Fault} {rest : Source}
    (h : Datum.read setup.reading (.ofString code) = (.error fault, rest)) :
    readText setup code = throw fault := by
  unfold readText
  rw [h]
  rfl

theorem read_of_readText {code : String} (h : readText setup code s = .ok v s') :
    ∃ d after, Datum.read setup.reading (.ofString code) = (.ok d, after) ∧
      v.toDatum? = some d := by
  rcases hread : Datum.read setup.reading (.ofString code) with ⟨fault | d, rest⟩
  · rw [readText_of_unreadable hread] at h
    cases h
  · rw [readText_of_read hread] at h
    exact ⟨d, rest, rfl, toDatum?_of_accept h⟩

end Session

/-- What is read is made of readable data and nothing else; it prints, and reading its plain form
gives it again and leaves nothing. So of the values that print, those are read back whose symbols
are ordinary. -/
theorem reading_retracts_printing (limit : Nat) :
    (∀ d, (∃ text after, Datum.read limit (.ofString text) = (.ok d, after)) ↔
      d.Readable ∧ d.nesting ≤ limit) ∧
    (∀ setup code s v s', setup.reading = limit → Session.readText setup code s = .ok v s' →
      ∃ d, v.toDatum? = some d ∧ d.HasNumerals ∧ (∀ name ∈ d.symbols, Ordinary name) ∧
        ∀ names, ∃ text, v.render names limit = .ok text ∧ ReadsAs limit text d) ∧
    ∀ names (v : Value) d, v.toDatum? = some d → d.HasNumerals → d.nesting ≤ limit →
      ∃ text, v.render names limit = .ok text ∧
        (ReadsAs limit text d ↔ ∀ name ∈ d.symbols, Ordinary name) := by
  refine ⟨?_, ?_, ?_⟩
  · intro d
    constructor
    · rintro ⟨text, after, h⟩
      exact ⟨(Datum.fits_of_read h).readable, (Datum.fits_of_read h).nesting_le⟩
    · rintro ⟨hreadable, hnesting⟩
      obtain ⟨text, -, after, h, -⟩ := Value.exists_readsAs (fun _ => none)
        (Value.toDatum?_ofDatum d 0) ⟨hreadable, hnesting⟩
      exact ⟨text, after, h⟩
  · rintro setup code s v s' rfl h
    obtain ⟨d, after, hread, hv⟩ := Session.read_of_readText h
    have hfits := Datum.fits_of_read hread
    obtain ⟨hnumerals, hordinary⟩ := d.readable_iff.1 hfits.readable
    exact ⟨d, hv, hnumerals, hordinary, fun names => v.exists_readsAs names hv hfits⟩
  · intro names v d hv hd hn
    obtain ⟨text, htext⟩ := (Value.exists_render_and_renderRest names hv hd).1 limit hn
    refine ⟨text, htext, ?_, ?_⟩
    · rintro ⟨after, hread, -⟩
      exact (d.readable_iff.1 (Datum.fits_of_read hread).readable).2
    · intro hordinary
      obtain ⟨text', htext', hread⟩ :=
        v.exists_readsAs names hv ⟨d.readable_iff.2 ⟨hd, hordinary⟩, hn⟩
      obtain rfl : text = text' := Except.ok.inj (htext.symm.trans htext')
      exact hread

/-- A quote is printed in full and then read as the same list, but a name with a blank is not read
back. -/
theorem reading_retracts_printing_quote :
    let s : Session := ⟨⟨.empty, .ofString "", ""⟩, 0, []⟩
    (∃ v s', Session.readText ⟨.plain, 106, false⟩ "'a)" s = .ok v s' ∧
      ∃ text, v.render (fun _ => none) 2 = .ok text ∧
        ReadsAs 2 text (.list [.symbol "quote", .symbol "a"])) ∧
    ∃ text, (Value.pair 0 (.symbol "a b") (.int 5)).render (fun _ => none) 2 = .ok text ∧
      ¬ ReadsAs 2 text (.pair (.symbol "a b") (.int 5)) := by
  intro s
  obtain ⟨-, hread, hprint⟩ := reading_retracts_printing 2
  constructor
  · have h : Session.readText ⟨.plain, 106, false⟩ "'a)" s =
        .ok (.pair 0 (.symbol "quote") (.pair 1 (.symbol "a") .nil))
          { s with machine := { s.machine with store := { s.machine.store with nextId := 2 } } } := by
      let setup : Setup := ⟨.plain, 106, false⟩
      have hread' : Datum.read setup.reading (.ofString "'a)") =
          (.ok (.list [.symbol "quote", .symbol "a"]), ⟨some ')', [], 1⟩) := by
        with_unfolding_all rfl
      exact congrFun (Session.readText_of_read hread') s
    obtain ⟨d, hv, -, -, hretract⟩ := hread _ _ _ _ _ rfl h
    obtain rfl : Datum.list [.symbol "quote", .symbol "a"] = d := Option.some.inj hv
    exact ⟨_, _, h, hretract _⟩
  · have hnumerals : (Datum.pair (.symbol "a b") (.int 5)).HasNumerals := by
      intro i hi
      obtain rfl : i = 5 := by simpa [Datum.integers] using hi
      decide
    obtain ⟨text, htext, hiff⟩ := hprint (fun _ => none)
      (.pair 0 (.symbol "a b") (.int 5)) _ rfl hnumerals (by decide)
    refine ⟨text, htext, fun hreads => ?_⟩
    have hordinary : Ordinary "a b" := hiff.1 hreads "a b" (by simp [Datum.symbols])
    have hblank : isDelimiter ' ' = false := hordinary.plain ' ' (by decide)
    exact absurd hblank (by decide)

end Keel
