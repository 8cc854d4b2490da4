import Keel.Proofs.Consumption
import Keel.Proofs.Reading

/-! # Reading with more behind a newline

A newline ends whatever the end of the text ends: a token, and a comment. So with
a newline and anything behind it a text is read as it is by itself, datum for
datum, until nothing is left of it. Then the reader is at the text behind the
newline.
-/

namespace Keel

open Grammar

namespace Source

/-- The source goes on behind a newline with the text `b`. -/
structure Extends (b : List Char) (s s' : Source) : Prop where
  unread : s'.unread = s.unread ++ '\n' :: b
  line : s'.line = s.line

theorem dropBlanks_append_of_blank {t : List Char} (h : Blank t []) (b : List Char) (line : Int) :
    dropBlanks false (t ++ '\n' :: b) line = dropBlanks false b (line + t.count '\n' + 1) := by
  generalize hr : ([] : List Char) = r at h
  induction h generalizing line with
  | nil r =>
    subst hr
    simp [dropBlanks, lineAfter, Text.isBlank, Text.isWhiteSpace]
  | @space c t r hc _ ih =>
    have hline := lineAfter_add_count line c t
    rw [List.cons_append, dropBlanks, if_neg (isBlank_ne_semicolon hc), if_pos hc, ih _ hr, hline]
  | @comment body t r hn _ ih =>
    have hcount : (';' :: body ++ '\n' :: t).count '\n' = t.count '\n' + 1 := by
      simp [List.count_eq_zero.2 hn]
    rw [hcount, List.cons_append, List.cons_append, List.append_assoc, List.cons_append, dropBlanks,
      if_pos rfl, dropBlanks_comment hn, ih _ hr]
    congr 1
    push_cast
    omega
  | @lastComment body hn =>
    have hcount : (';' :: body).count '\n' = 0 := by
      simp [List.count_eq_zero.2 hn]
    rw [hcount, List.cons_append, dropBlanks, if_pos rfl, dropBlanks_comment hn]
    congr 1
    omega

end Source

namespace Datum

variable {limit : Nat} {s s' : Source} {b : List Char}

/-- Blanks ahead do not matter. -/
theorem read_congr (h : s'.skipBlanks = s.skipBlanks) : read limit s' = read limit s := by
  have hadvance : advance limit [] s' = advance limit [] s := by
    simp only [advance, h]
  rw [read, read, resume_eq, resume_eq limit [] s, hadvance]

theorem advancesTo_of_read {result : Except Fault Datum} (h : read limit s = (result, s')) :
    s.AdvancesTo s' := by
  have hadvances := advancesTo_read limit s
  rwa [h] at hadvances

/-- A datum is read in the same way with more behind a newline. -/
theorem read_of_extends {d : Datum} {rest : Source} (h : s.Extends b s')
    (hread : read limit s = (.ok d, rest)) :
    ∃ rest', read limit s' = (.ok d, rest') ∧ rest.Extends b rest' := by
  obtain ⟨t, hb, hd⟩ := exists_denotes_of_read hread
  obtain ⟨blank, hblank, hb'⟩ := hb.exchange hd.ne_nil
  obtain ⟨w, -, rfl, hd'⟩ := hd.exchange
  have hdelimited : Delimited rest.unread → Delimited (rest.unread ++ '\n' :: b) := by
    cases rest.unread with
    | nil => exact fun _ => delimited_cons (by decide)
    | cons c cs => exact id
  have hs' : Blank s'.unread (w ++ (rest.unread ++ '\n' :: b)) := by
    rw [h.unread, hblank, List.append_assoc, List.append_assoc]
    exact hb' _
  obtain ⟨rest', hread', hrest'⟩ := read_of_denotes hs' (hd' _ fun _ => hdelimited)
  refine ⟨rest', hread', hrest', ?_⟩
  -- What is left determines how many lines have been passed.
  have hlines := (advancesTo_of_read hread).lines
  have hlines' := (advancesTo_of_read hread').lines
  rw [hrest', h.unread, h.line, List.count_append, List.count_append] at hlines'
  push_cast at hlines'
  omega

theorem read_of_extends_blank (h : s.Extends b s') (hblank : Blank s.unread []) :
    read limit s' = read limit ⟨none, b, s.line + s.unread.count '\n' + 1⟩ := by
  apply read_congr
  simp only [Source.skipBlanks, h.unread, h.line, Source.dropBlanks_append_of_blank hblank,
    Source.unread_mk_none]

end Datum

end Keel
