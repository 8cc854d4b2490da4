import Keel.Proofs.Consumption
import Keel.Proofs.Reading
import Keel.Value.Style

/-! # Texts of bytes

A text consists of bytes if the code of each of its characters is at most 255. A
datum that is read from such a text names its symbols by such texts, and a value
whose symbols have such names is written by such a text: numerals, punctuation
and the names of primitives are bytes, and what quoting escapes becomes bytes.
-/

namespace Keel

namespace Text

variable {cs cs' : List Char} {a b : String}

def AllBytes (cs : List Char) : Prop :=
  ∀ c ∈ cs, c.toNat < 0x100

def OfBytes (s : String) : Prop :=
  AllBytes s.toList

instance : DecidablePred AllBytes := fun cs =>
  decidable_of_iff (cs.all (·.toNat < 0x100)) (by simp [AllBytes])

instance : DecidablePred OfBytes := fun s =>
  inferInstanceAs (Decidable (AllBytes s.toList))

theorem AllBytes.subset (h : AllBytes cs) (hs : cs' ⊆ cs) : AllBytes cs' :=
  fun c hc => h c (hs hc)

theorem allBytes_nil : AllBytes [] :=
  nofun

@[simp] theorem allBytes_cons {c : Char} : AllBytes (c :: cs) ↔ c.toNat < 0x100 ∧ AllBytes cs :=
  List.forall_mem_cons

@[simp] theorem allBytes_append : AllBytes (cs ++ cs') ↔ AllBytes cs ∧ AllBytes cs' :=
  List.forall_mem_append

@[simp] theorem ofBytes_ofList : OfBytes (String.ofList cs) ↔ AllBytes cs := by
  rw [OfBytes, String.toList_ofList]

@[simp] theorem ofBytes_append : OfBytes (a ++ b) ↔ OfBytes a ∧ OfBytes b := by
  rw [OfBytes, String.toList_append, allBytes_append, OfBytes, OfBytes]

theorem allBytes_of_isDigit (h : ∀ c ∈ cs, c.isDigit = true) : AllBytes cs := by
  intro c hc
  have hdigit := Numeral.toNat_of_isDigit (h c hc)
  omega

/-! ## Quoted texts -/

theorem allBytes_hex : ∀ n < 0x100, AllBytes (hex 2 n) := by
  decide +kernel

theorem allBytes_escape {mark c : Char} (hc : c.toNat < 0x100) : AllBytes (escape mark c) := by
  have hescaped : AllBytes ['\\', c] := by simp [hc, allBytes_nil]
  unfold escape
  split
  · exact hescaped
  split
  · decide
  split
  · decide
  split
  · decide
  split
  · simp [hc, allBytes_nil]
  · have hhex := allBytes_hex c.toNat hc
    rw [numericEscape, if_pos hc]
    simp [hhex]

theorem OfBytes.quote (h : OfBytes a) : OfBytes (quote a) := by
  have hmark : (quoteMark a.toList).toNat < 0x100 := by
    unfold quoteMark
    split <;> decide
  have hinside : AllBytes (a.toList.flatMap (escape (quoteMark a.toList))) := by
    intro d hd
    obtain ⟨c, hc, hd⟩ := List.mem_flatMap.1 hd
    exact allBytes_escape (h c hc) d hd
  rw [Text.quote, ofBytes_ofList, quoteChars]
  simp [hmark, hinside, allBytes_nil]

end Text

open Text

/-! ## Data -/

def Datum.OfBytes : Datum → Prop
  | .symbol name => Text.OfBytes name
  | .pair car cdr => car.OfBytes ∧ cdr.OfBytes
  | _ => True

theorem Datum.ofBytes_listTo {items : List Datum} {tail : Datum} (hi : ∀ d ∈ items, d.OfBytes)
    (ht : tail.OfBytes) : (listTo items tail).OfBytes := by
  induction items with
  | nil => exact ht
  | cons item items ih =>
    obtain ⟨hitem, hitems⟩ := List.forall_mem_cons.1 hi
    exact ⟨hitem, ih hitems⟩

namespace Grammar

theorem Blank.allBytes {t r : List Char} (h : Blank t r) (ht : AllBytes t) : AllBytes r :=
  ht.subset h.suffix.subset

theorem Atom.ofBytes {w : List Char} {d : Datum} (h : Atom w d) (hw : AllBytes w) : d.OfBytes := by
  cases h with
  | symbol => exact ofBytes_ofList.2 hw
  | _ => trivial

theorem Denotes.allBytes {n : Nat} {t r : List Char} {d : Datum} (h : Denotes n t r d)
    (ht : AllBytes t) : AllBytes r := by
  obtain ⟨w, -, rfl⟩ := h.eq_append
  exact (allBytes_append.1 ht).2

theorem Items.allBytes {n : Nat} {t r : List Char} {items : List Datum} (h : Items n t r items)
    (ht : AllBytes t) : AllBytes r := by
  obtain ⟨w, rfl⟩ := h.eq_append
  exact (allBytes_append.1 ht).2

mutual

theorem Denotes.ofBytes {n : Nat} {t r : List Char} {d : Datum} :
    Denotes n t r d → AllBytes t → d.OfBytes
  | .atom _ hd, ht => hd.ofBytes (allBytes_append.1 ht).1
  | .quote hb hd, ht => by
    have hinside := hb.allBytes (allBytes_cons.1 ht).2
    have hname : Text.OfBytes "quote" := by decide
    exact ⟨hname, hd.ofBytes hinside, trivial⟩
  | .list hi _, ht => Datum.ofBytes_listTo (hi.ofBytes (allBytes_cons.1 ht).2) trivial
  | .dotted hi _ hb _ hb' hd _, ht => by
    have hitems := (allBytes_cons.1 ht).2
    have hdot := hb.allBytes (hi.allBytes hitems)
    have htail := hb'.allBytes (allBytes_cons.1 hdot).2
    exact Datum.ofBytes_listTo (hi.ofBytes hitems) (hd.ofBytes htail)

theorem Items.ofBytes {n : Nat} {t r : List Char} {items : List Datum} :
    Items n t r items → AllBytes t → ∀ d ∈ items, d.OfBytes
  | .nil _ _, _ => fun _ hd => nomatch hd
  | .cons hb hd hi, ht => by
    have hitem := hb.allBytes ht
    exact List.forall_mem_cons.2 ⟨hd.ofBytes hitem, hi.ofBytes (hd.allBytes hitem)⟩

end

end Grammar

def Source.OfBytes (source : Source) : Prop :=
  AllBytes source.unread

theorem Source.OfBytes.of_advancesTo {source source' : Source} (hs : source.OfBytes)
    (h : source.AdvancesTo source') : source'.OfBytes :=
  AllBytes.subset hs h.suffix.subset

theorem Datum.ofBytes_of_read {limit : Nat} {source rest : Source} {d : Datum}
    (hs : source.OfBytes) (h : read limit source = (.ok d, rest)) : d.OfBytes := by
  obtain ⟨t, hb, hd⟩ := exists_denotes_of_read h
  exact hd.ofBytes (hb.allBytes hs)

/-! ## Values -/

def Value.OfBytes : Value → Prop
  | .symbol name => Text.OfBytes name
  | .text s => Text.OfBytes s
  | .pair _ car cdr => car.OfBytes ∧ cdr.OfBytes
  | _ => True

namespace Value

theorem ofBytes_ofDatum {d : Datum} (h : d.OfBytes) (id : Identity) : (ofDatum d id).1.OfBytes := by
  induction d generalizing id with
  | symbol name => exact h
  | pair car cdr ihcar ihcdr => exact ⟨ihcar h.1 _, ihcdr h.2 _⟩
  | _ => trivial

theorem ofBytes_listTo {items : List Value} {tail : Value} (id : Identity)
    (hi : ∀ v ∈ items, v.OfBytes) (ht : tail.OfBytes) : (listTo id items tail).OfBytes := by
  induction items generalizing id with
  | nil => exact ht
  | cons item items ih =>
    obtain ⟨hitem, hitems⟩ := List.forall_mem_cons.1 hi
    exact ⟨hitem, ih (id + 1) hitems⟩

end Value

theorem Primitive.ofBytes_name (p : Primitive) : Text.OfBytes p.name := by
  have hall : ∀ q ∈ all, Text.OfBytes q.name := by decide
  exact hall p (mem_all p)

/-! ## Written values -/

/-- If the computation gives a text, then it is one of bytes. -/
def GivesBytes (x : Except Fault String) : Prop :=
  ∀ text, x = .ok text → Text.OfBytes text

namespace GivesBytes

theorem pure {text : String} (h : Text.OfBytes text) : GivesBytes (Pure.pure text) := by
  rintro text' ⟨⟩
  exact h

theorem throw (fault : Fault) : GivesBytes (MonadExcept.throw fault) :=
  nofun

theorem bind {x : Except Fault String} {k : String → Except Fault String} (hx : GivesBytes x)
    (hk : ∀ text, Text.OfBytes text → GivesBytes (k text)) : GivesBytes (x >>= k) := by
  cases x with
  | error fault => exact nofun
  | ok text => exact hk text (hx text rfl)

theorem numeral (i : Int) : GivesBytes (Value.numeral i) := by
  have hdigits : ∀ n, AllBytes (Nat.toDigits 10 n) :=
    fun n => allBytes_of_isDigit fun _ => Numeral.isDigit_of_mem_toDigits
  unfold Value.numeral
  cases hcs : Numeral.chars? i with
  | none => exact throw _
  | some cs =>
    refine pure (ofBytes_ofList.2 ?_)
    cases i with
    | ofNat n =>
      simp only [Numeral.chars?] at hcs
      obtain ⟨-, hcs⟩ := Option.ite_none_right_eq_some.1 hcs
      exact Option.some.inj hcs ▸ hdigits n
    | negSucc n =>
      simp only [Numeral.chars?] at hcs
      obtain ⟨-, hcs⟩ := Option.ite_none_right_eq_some.1 hcs
      exact Option.some.inj hcs ▸ allBytes_cons.2 ⟨by decide, hdigits (n + 1)⟩

theorem showPrimitive (p : Primitive) : Text.OfBytes (Value.showPrimitive p) := by
  rw [Value.showPrimitive, ofBytes_append, ofBytes_append]
  exact ⟨⟨by decide, p.ofBytes_name⟩, by decide⟩

theorem showClosure {name : Option String} (h : ∀ s, name = some s → Text.OfBytes s) :
    Text.OfBytes (Value.showClosure name) := by
  unfold Value.showClosure
  split
  · decide
  · decide
  · next name _ =>
    rw [ofBytes_append, ofBytes_append]
    exact ⟨⟨by decide, h name rfl⟩, by decide⟩

variable {names : ClosureId → Option String}
  (hnames : ∀ id name, names id = some name → Text.OfBytes name) {v : Value}
include hnames

theorem renderFlat (hv : v.OfBytes) : GivesBytes (v.renderFlat names) := by
  cases v with
  | int i => exact numeral i
  | bool b => cases b <;> exact pure (by decide)
  | symbol name => exact pure hv
  | nil => exact pure (by decide)
  | pair => exact throw _
  | primitive _ p => exact pure (showPrimitive p)
  | closure id => exact pure (showClosure (hnames id))
  | absent => exact pure (by decide)
  | text s =>
    have hquote : Text.OfBytes (Text.quote s) := OfBytes.quote hv
    refine pure ?_
    rw [ofBytes_append, ofBytes_append]
    exact ⟨⟨by decide, hquote⟩, by decide⟩

theorem render_and_renderRest (hv : v.OfBytes) :
    (∀ limit, GivesBytes (v.render names limit)) ∧ ∀ inner, GivesBytes (v.renderRest names inner) := by
  have hdotted : ∀ {v : Value}, v.OfBytes →
      GivesBytes (do return " . " ++ (← v.renderFlat names) ++ ")") := by
    intro v hv
    refine bind (renderFlat hnames hv) fun tail ht => pure ?_
    rw [ofBytes_append, ofBytes_append]
    exact ⟨⟨by decide, ht⟩, by decide⟩
  induction v with
  | pair id car cdr ihcar ihcdr =>
    obtain ⟨hfirst, -⟩ := ihcar hv.1
    obtain ⟨-, hrest⟩ := ihcdr hv.2
    constructor
    · intro limit
      cases limit with
      | zero => exact throw _
      | succ inner =>
        rw [Value.render]
        refine bind (hfirst inner) fun first hf => bind (hrest inner) fun rest hr => pure ?_
        rw [ofBytes_append, ofBytes_append]
        exact ⟨⟨by decide, hf⟩, hr⟩
    · intro inner
      rw [Value.renderRest]
      refine bind (hfirst inner) fun first hf => bind (hrest inner) fun rest hr => pure ?_
      rw [ofBytes_append, ofBytes_append]
      exact ⟨⟨by decide, hf⟩, hr⟩
  | nil => exact ⟨fun _ => pure (by decide), fun _ => pure (by decide)⟩
  | _ => exact ⟨fun _ => renderFlat hnames hv, fun _ => hdotted hv⟩

theorem inspect (hv : v.OfBytes) (limit : Nat) : GivesBytes (v.inspect names limit) := by
  induction v generalizing limit with
  | pair id car cdr ihcar ihcdr =>
    cases limit with
    | zero => exact throw _
    | succ inner =>
      rw [Value.inspect]
      refine bind (ihcar hv.1 inner) fun first hf => bind (ihcdr hv.2 inner) fun second hs => pure ?_
      simp only [ofBytes_append]
      exact ⟨⟨⟨⟨by decide, hf⟩, by decide⟩, hs⟩, by decide⟩
  | symbol name =>
    have hquote : Text.OfBytes (Text.quote name) := OfBytes.quote hv
    rw [Value.inspect]
    refine pure ?_
    rw [ofBytes_append, ofBytes_append]
    exact ⟨⟨by decide, hquote⟩, by decide⟩
  | text s =>
    rw [Value.inspect]
    exact pure (OfBytes.quote hv)
  | int i =>
    rw [Value.inspect]
    exact numeral i
  | bool b =>
    rw [Value.inspect]
    cases b <;> exact pure (by decide)
  | primitive _ p =>
    rw [Value.inspect]
    exact pure (showPrimitive p)
  | closure id =>
    rw [Value.inspect]
    exact pure (showClosure (hnames id))
  | _ =>
    rw [Value.inspect]
    exact pure (by decide)

theorem write {style : Style} (hstyle : style = .plain ∨ style = .debug) (hv : v.OfBytes)
    (limit : Nat) : GivesBytes (style.write names limit v) := by
  rcases hstyle with rfl | rfl
  · exact (render_and_renderRest hnames hv).1 limit
  · exact inspect hnames hv limit

end GivesBytes

end Keel
