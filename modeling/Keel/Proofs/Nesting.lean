import Keel.Machine
import Keel.Proofs.Equality
import Keel.Proofs.Reading
import Keel.Settings
import Keel.Value.Printer

/-! # Long lists are not deep

A level is a bracket or a quote mark that is open in a text, or a first part
inside a value. Each spends its activations on every operation, and the length of
a list spends none. So the nesting that a recursion limit affords to an operation
is a number of levels: what is nested no deeper is read, written, compared, taken
apart and put together without a failure for its depth.
-/

namespace Keel

open Grammar

/-! ## The nesting of texts -/

inductive Mark where
  | bracket
  | quote
  deriving DecidableEq, Repr

/-- A datum is complete. This closes the quote marks right before it. -/
def Mark.settle : List Mark → List Mark
  | .quote :: marks => settle marks
  | marks => marks

/-- What a character of a text can be inside of. -/
inductive Place where
  | outside
  | token
  | comment
  deriving DecidableEq, Repr

/-- A place in a text, with the marks that are open there, innermost first. -/
structure Scan where
  place : Place
  marks : List Mark
  deriving DecidableEq, Repr

namespace Scan

def start : Scan :=
  ⟨.outside, []⟩

def atDelimiter (marks : List Mark) (c : Char) : Scan :=
  if c = '(' then ⟨.outside, .bracket :: marks⟩
  else if c = '\'' then ⟨.outside, .quote :: marks⟩
  else if c = ')' then ⟨.outside, Mark.settle (Mark.settle marks).tail⟩
  else if c = ';' then ⟨.comment, marks⟩
  else ⟨.outside, marks⟩

def step (c : Char) : Scan → Scan
  | ⟨.comment, marks⟩ => if c = '\n' then ⟨.outside, marks⟩ else ⟨.comment, marks⟩
  | ⟨.outside, marks⟩ => if isDelimiter c then atDelimiter marks c else ⟨.token, marks⟩
  | ⟨.token, marks⟩ => if isDelimiter c then atDelimiter (Mark.settle marks) c else ⟨.token, marks⟩

def nesting : Scan → List Char → Nat
  | p, [] => p.marks.length
  | p, c :: cs => max p.marks.length ((p.step c).nesting cs)

variable {p : Scan} {marks : List Mark} {t r : List Char}

theorem length_marks_le_nesting (p : Scan) (t : List Char) : p.marks.length ≤ p.nesting t := by
  cases t with
  | nil => exact Nat.le_refl _
  | cons c cs => exact Nat.le_max_left _ _

theorem nesting_step_le (p : Scan) (c : Char) (cs : List Char) :
    (p.step c).nesting cs ≤ p.nesting (c :: cs) :=
  Nat.le_max_right _ _

theorem length_settle_le (marks : List Mark) : (Mark.settle marks).length ≤ marks.length := by
  fun_induction Mark.settle marks with
  | case1 marks ih => exact Nat.le_succ_of_le ih
  | case2 => exact Nat.le_refl _

theorem nesting_comment_le {body : List Char} (h : '\n' ∉ body) (marks : List Mark)
    (t : List Char) :
    (Scan.mk .outside marks).nesting t ≤ (Scan.mk .comment marks).nesting (body ++ '\n' :: t) := by
  induction body with
  | nil => exact nesting_step_le ⟨.comment, marks⟩ '\n' t
  | cons c body ih =>
    obtain ⟨hc, hbody⟩ : '\n' ≠ c ∧ '\n' ∉ body := by simpa using h
    have hstep : (Scan.mk .comment marks).step c = ⟨.comment, marks⟩ := if_neg hc.symm
    have hle := nesting_step_le ⟨.comment, marks⟩ c (body ++ '\n' :: t)
    rw [hstep] at hle
    exact Nat.le_trans (ih hbody) hle

theorem nesting_blank_le (h : Blank t r) (marks : List Mark) :
    (Scan.mk .outside marks).nesting r ≤ (Scan.mk .outside marks).nesting t := by
  induction h with
  | nil => exact Nat.le_refl _
  | @space c t r hc _ ih =>
    have hne : ∀ d : Char, Text.isBlank d = false → c ≠ d := by
      rintro d hd rfl
      simp [hc] at hd
    have hstep : (Scan.mk .outside marks).step c = ⟨.outside, marks⟩ := by
      simp [step, atDelimiter, isDelimiter, hc, hne '(' (by decide), hne '\'' (by decide),
        hne ')' (by decide), hne ';' (by decide)]
    have hle := nesting_step_le ⟨.outside, marks⟩ c t
    rw [hstep] at hle
    exact Nat.le_trans ih hle
  | comment hbody _ ih =>
    exact Nat.le_trans (Nat.le_trans ih (nesting_comment_le hbody marks _))
      (nesting_step_le ⟨.outside, marks⟩ ';' _)
  | lastComment => exact length_marks_le_nesting ⟨.outside, marks⟩ _

theorem nesting_inToken_le (h : Delimited r) (marks : List Mark) :
    (Scan.mk .outside (Mark.settle marks)).nesting r ≤ (Scan.mk .token marks).nesting r := by
  cases r with
  | nil => exact length_settle_le marks
  | cons c cs =>
    have hc : isDelimiter c = true := h c rfl
    have hstep : (Scan.mk .token marks).step c = (Scan.mk .outside (Mark.settle marks)).step c := by
      simp [step, hc]
    simp only [nesting, hstep]
    exact Nat.max_le.2 ⟨Nat.le_trans (length_settle_le marks) (Nat.le_max_left _ _),
      Nat.le_max_right _ _⟩

/-- Behind a token the quote marks before it are closed. -/
theorem nesting_token_le {w : List Char} (h : IsToken w r) (marks : List Mark) :
    (Scan.mk .outside (Mark.settle marks)).nesting r ≤
      (Scan.mk .outside marks).nesting (w ++ r) := by
  have hinside : ∀ w : List Char, (∀ c ∈ w, isDelimiter c = false) →
      (Scan.mk .token marks).nesting r ≤ (Scan.mk .token marks).nesting (w ++ r) := by
    intro w hw
    induction w with
    | nil => exact Nat.le_refl _
    | cons c w ih =>
      obtain ⟨hc, hw⟩ := List.forall_mem_cons.1 hw
      have hstep : (Scan.mk .token marks).step c = ⟨.token, marks⟩ := by simp [step, hc]
      have hle := nesting_step_le ⟨.token, marks⟩ c (w ++ r)
      rw [hstep] at hle
      exact Nat.le_trans (ih hw) hle
  obtain ⟨c, w, rfl⟩ := List.exists_cons_of_ne_nil h.ne_nil
  obtain ⟨hc, hw⟩ := List.forall_mem_cons.1 h.plain
  have hstep : (Scan.mk .outside marks).step c = ⟨.token, marks⟩ := by simp [step, hc]
  have hle := nesting_step_le ⟨.outside, marks⟩ c (w ++ r)
  rw [hstep] at hle
  exact Nat.le_trans (nesting_inToken_le h.delimited marks) (Nat.le_trans (hinside w hw) hle)

theorem nesting_open_le (marks : List Mark) (cs : List Char) :
    (Scan.mk .outside (.bracket :: marks)).nesting cs ≤
      (Scan.mk .outside marks).nesting ('(' :: cs) :=
  nesting_step_le ⟨.outside, marks⟩ '(' cs

theorem nesting_quote_le (marks : List Mark) (cs : List Char) :
    (Scan.mk .outside (.quote :: marks)).nesting cs ≤
      (Scan.mk .outside marks).nesting ('\'' :: cs) :=
  nesting_step_le ⟨.outside, marks⟩ '\'' cs

theorem nesting_close_le (marks : List Mark) (cs : List Char) :
    (Scan.mk .outside (Mark.settle marks)).nesting cs ≤
      (Scan.mk .outside (.bracket :: marks)).nesting (')' :: cs) :=
  nesting_step_le ⟨.outside, .bracket :: marks⟩ ')' cs

end Scan

/-- The largest number of brackets and quote marks that are open at once in a text. -/
def Text.nesting (cs : List Char) : Nat :=
  Scan.start.nesting cs

/-- Four marks are open at `b`; those of the comment do not count. -/
example : Text.nesting "'(a '(b)) ; ((((((".toList = 4 := by
  decide

/-! ## Reading -/

namespace Datum

def Opening.mark : Opening → Mark
  | .list .. => .bracket
  | .tail _ => .bracket
  | .quote => .quote

/-- The nesting of what lies ahead, with the given constructs open. -/
def ahead (stack : List Opening) (s : Source) : Nat :=
  (Scan.mk .outside (stack.map Opening.mark)).nesting s.unread

variable {limit : Nat} {stack stack' : List Opening} {s s' : Source}

theorem blank_of_nextSignificant {c : Char} (h : s.nextSignificant = (some c, s')) :
    Blank s.unread (c :: s'.unread) := by
  obtain ⟨r, line, hskip, hb, -⟩ := s.exists_skipBlanks
  rw [Source.nextSignificant, hskip] at h
  cases r with
  | nil => simp [Source.next] at h
  | cons d cs =>
    obtain ⟨rfl, rfl⟩ : d = c ∧ _ = s' := by simpa [Source.next] using h
    exact hb

theorem eq_of_opening_eq_more {o : Opening}
    (h : Progress.opening limit o stack s = .more stack' s') : stack' = o :: stack ∧ s' = s := by
  unfold Progress.opening at h
  split at h
  · obtain ⟨rfl, rfl⟩ : _ = stack' ∧ _ = s' := by simpa using h
    exact ⟨rfl, rfl⟩
  · simp at h

theorem ahead_le_of_deliver {d : Datum} (h : Progress.deliver stack d s = .more stack' s') :
    ahead stack' s' ≤
      (Scan.mk .outside (Mark.settle (stack.map Opening.mark))).nesting s.unread := by
  fun_induction Progress.deliver stack d s with
  | case1 => simp at h
  | case2 line items stack d s =>
    obtain ⟨rfl, rfl⟩ : _ = stack' ∧ _ = s' := by simpa using h
    exact Nat.le_refl _
  | case3 stack d s ih => exact ih h
  | case4 items stack d s after hs ih =>
    calc ahead stack' s'
        ≤ (Scan.mk .outside (Mark.settle (stack.map Opening.mark))).nesting after.unread := ih h
      _ ≤ (Scan.mk .outside (.bracket :: stack.map Opening.mark)).nesting (')' :: after.unread) :=
        Scan.nesting_close_le _ _
      _ ≤ (Scan.mk .outside (.bracket :: stack.map Opening.mark)).nesting s.unread :=
        Scan.nesting_blank_le (blank_of_nextSignificant hs) _
  | case5 => simp [Progress.malformed] at h

theorem ahead_le_of_atToken {c : Char} {cs : List Char} (hs : s.unread = c :: cs)
    (hc : isDelimiter c = false) (h : Progress.atToken stack s = .more stack' s') :
    ahead stack' s' ≤ ahead stack s := by
  have htoken := Scan.nesting_token_le (Source.isToken_token hs hc) (stack.map Opening.mark)
  rw [Source.unread_token] at htoken
  refine Nat.le_trans ?_ htoken
  simp only [Progress.atToken] at h
  split at h
  · exact ahead_le_of_deliver h
  · revert h
    fun_cases Progress.atDot stack s.token.2 with
    | case1 => simp [Progress.malformed]
    | case2 line items stack hitems =>
      intro h
      obtain ⟨rfl, rfl⟩ : _ = stack' ∧ _ = s' := by simpa using h
      exact Nat.le_refl _
    | case3 => simp [Progress.malformed]
  · simp at h

/-- Where a step goes on, what lies ahead is nested no deeper than before. -/
theorem ahead_le_of_advance (h : advance limit stack s = .more stack' s') :
    ahead stack' s' ≤ ahead stack s := by
  have hblank : ∀ {r}, Blank s.unread r →
      (Scan.mk .outside (stack.map Opening.mark)).nesting r ≤ ahead stack s :=
    fun hb => Scan.nesting_blank_le hb _
  cases s.shows with
  | nothing hs _ =>
    rw [advance_end hs] at h
    revert h
    fun_cases Progress.atEnd stack _ <;> simp [Progress.malformed]
  | opening hs hb =>
    rw [advance_open hs] at h
    obtain ⟨rfl, rfl⟩ := eq_of_opening_eq_more h
    exact Nat.le_trans (Scan.nesting_open_le _ _) (hblank hb)
  | @closing cs line hs hb =>
    rw [advance_close hs] at h
    refine Nat.le_trans ?_ (hblank hb)
    revert h
    fun_cases Progress.atClose stack _ with
    | case1 => exact fun h => Nat.le_trans (ahead_le_of_deliver h) (Scan.nesting_close_le _ _)
    | case2 => simp [Progress.malformed]
    | case3 => simp [Progress.malformed]
  | quoting hs hb =>
    rw [advance_quote hs] at h
    obtain ⟨rfl, rfl⟩ := eq_of_opening_eq_more h
    exact Nat.le_trans (Scan.nesting_quote_le _ _) (hblank hb)
  | @token c cs line hc hs hb =>
    rw [advance_token hs hc] at h
    exact Nat.le_trans (ahead_le_of_atToken rfl hc h) (hblank hb)

/-- A step fails for its depth only if a mark is ahead that would be one too many. -/
theorem lt_ahead_of_advance (h : advance limit stack s = .failed .tooDeep s') :
    limit < ahead stack s := by
  have hfull : ∀ {mark : Mark} {cs : List Char}, limit ≤ stack.length →
      (Scan.mk .outside (mark :: stack.map Opening.mark)).nesting cs ≤ ahead stack s →
      limit < ahead stack s := by
    intro mark cs hle hahead
    have hmarks := Scan.length_marks_le_nesting ⟨.outside, mark :: stack.map Opening.mark⟩ cs
    simp only [List.length_cons, List.length_map] at hmarks
    omega
  cases s.shows with
  | nothing hs _ =>
    rw [advance_end hs] at h
    rcases atEnd_eq_failed h with ⟨hend, -⟩ | ⟨_, hmalformed⟩
    · exact nomatch hend
    · exact nomatch hmalformed
  | opening hs hb =>
    rw [advance_open hs] at h
    exact hfull (opening_eq_failed_iff.1 h).1
      (Nat.le_trans (Scan.nesting_open_le _ _) (Scan.nesting_blank_le hb _))
  | closing hs _ =>
    rw [advance_close hs] at h
    obtain ⟨_, hmalformed⟩ := atClose_eq_failed h
    exact nomatch hmalformed
  | quoting hs hb =>
    rw [advance_quote hs] at h
    exact hfull (opening_eq_failed_iff.1 h).1
      (Nat.le_trans (Scan.nesting_quote_le _ _) (Scan.nesting_blank_le hb _))
  | token hc hs _ =>
    rw [advance_token hs hc] at h
    rcases atToken_eq_failed h with hlong | ⟨_, hmalformed⟩
    · exact nomatch hlong
    · exact nomatch hmalformed

theorem lt_ahead_of_resume (h : resume limit stack s = (.error .tooDeep, s')) :
    limit < ahead stack s := by
  fun_induction resume limit stack s with
  | case1 stack s stack' t ha ih => exact Nat.lt_of_lt_of_le (ih h) (ahead_le_of_advance ha)
  | case2 => simp at h
  | case3 stack s fault t ha =>
    obtain ⟨rfl, rfl⟩ : fault = .tooDeep ∧ t = s' := by simpa using h
    exact lt_ahead_of_advance ha

/-- A text that is nested within the limit is not too deep for the reader. -/
theorem read_ne_tooDeep (h : Text.nesting s.unread ≤ limit) :
    (read limit s).1 ≠ .error .tooDeep := by
  intro hdeep
  have : limit < ahead [] s := lt_ahead_of_resume (Prod.ext hdeep rfl)
  exact absurd h (Nat.not_le.2 this)

end Datum

/-! ## Writing -/

/-- The outcome is no failure for depth. -/
def Shallow {α : Type} (x : Except Fault α) : Prop :=
  x ≠ .error .tooDeep

namespace Shallow

variable {α β : Type}

theorem pure (a : α) : Shallow (Pure.pure a : Except Fault α) :=
  nofun

theorem misuse (cause : Misuse) : Shallow (.error (.misuse cause) : Except Fault α) :=
  nofun

theorem bind {x : Except Fault α} {k : α → Except Fault β} (hx : Shallow x)
    (hk : ∀ a, Shallow (k a)) : Shallow (x >>= k) := by
  cases x with
  | error fault => exact fun h => hx (congrArg Except.error (Except.error.inj h))
  | ok a => exact hk a

end Shallow

namespace Value

variable (names : ClosureId → Option String)

theorem shallow_numeral (i : Int) : Shallow (numeral i) := by
  unfold numeral
  split
  · exact .pure _
  · exact nofun

/-- The two recursive functions of the printer, together. -/
theorem shallow_render_and_renderRest (v : Value) :
    (∀ limit, v.nesting ≤ limit → Shallow (v.render names limit)) ∧
      ∀ inner, v.nesting ≤ inner + 1 → Shallow (v.renderRest names inner) := by
  induction v with
  | pair id car cdr ihcar ihcdr =>
    simp only [nesting, Nat.max_le]
    constructor
    · rintro limit ⟨hcar, hcdr⟩
      obtain ⟨inner, rfl⟩ : ∃ inner, limit = inner + 1 := ⟨limit - 1, by omega⟩
      rw [render]
      exact (ihcar.1 inner (by omega)).bind fun _ => (ihcdr.2 inner hcdr).bind fun _ => .pure _
    · rintro inner ⟨hcar, hcdr⟩
      rw [renderRest]
      exact (ihcar.1 inner (by omega)).bind fun _ => (ihcdr.2 inner hcdr).bind fun _ => .pure _
  | int i =>
    exact ⟨fun _ _ => shallow_numeral i, fun _ _ => (shallow_numeral i).bind fun _ => .pure _⟩
  | _ => exact ⟨fun _ _ => .pure _, fun _ _ => .pure _⟩

theorem shallow_render {limit : Nat} {v : Value} (h : v.nesting ≤ limit) :
    Shallow (v.render names limit) :=
  (shallow_render_and_renderRest names v).1 limit h

end Value

/-! ## Taking lists apart and putting them together -/

namespace Value

/-- Takes the items of a list one after the other, behind those that have been taken. Each item
needs room for one call, and the next one has the same room. -/
def gather (construct : String) (items : List Value) (room : Nat) :
    Value → Except Fault (List Value)
  | .pair _ car cdr =>
    match room with
    | 0 => throw .tooDeep
    | inner + 1 => gather construct (items ++ [car]) (inner + 1) cdr
  | .nil => return items
  | _ => throw (.misuse (.improperList construct))

/-- Puts items in front of what has been made, the last one first. Each pair needs room for one
call, and the next one has the same room. -/
def build (id : Identity) (room : Nat) : List Value → Value → Except Fault Value
  | [], made => return made
  | item :: items, made =>
    match room with
    | 0 => throw .tooDeep
    | inner + 1 => build id (inner + 1) items (.pair (id + items.length) item made)

variable {room : Nat}

theorem gather_succ (construct : String) (items : List Value) (room : Nat) (v : Value) :
    v.gather construct items (room + 1) =
      match v.toList? with
      | some rest => .ok (items ++ rest)
      | none => .error (.misuse (.improperList construct)) := by
  induction v generalizing items with
  | pair id car cdr _ ih =>
    rw [gather, ih, toList?]
    cases cdr.toList? with
    | none => rfl
    | some rest => simp
  | nil => simp [gather, toList?]; rfl
  | _ => rfl

theorem listTo_concat (id : Identity) (items : List Value) (item tail : Value) :
    listTo id (items ++ [item]) tail = listTo id items (.pair (id + items.length) item tail) := by
  induction items generalizing id with
  | nil => rfl
  | cons first items ih =>
    rw [List.cons_append, listTo, listTo, ih, List.length_cons]
    simp only [Nat.add_assoc, Nat.add_comm 1]

theorem build_succ (id : Identity) (room : Nat) (items : List Value) (tail : Value) :
    build id (room + 1) items tail = .ok (listTo id items.reverse tail) := by
  induction items generalizing tail with
  | nil => rfl
  | cons item items ih =>
    rw [build, ih, List.reverse_cons, listTo_concat, List.length_reverse]

theorem shallow_gather (construct : String) {v : Value} (h : v.nesting ≤ room) :
    Shallow (v.gather construct [] room) := by
  cases room with
  | zero =>
    cases v with
    | pair => simp [nesting] at h
    | nil => exact .pure []
    | _ => exact .misuse _
  | succ room =>
    rw [gather_succ]
    cases v.toList? with
    | some rest => exact .pure _
    | none => exact .misuse _

theorem shallow_build (id : Identity) {items : List Value} {tail : Value}
    (h : (listTo id items tail).nesting ≤ room) :
    Shallow (build id room items.reverse tail) := by
  cases room with
  | zero =>
    cases items with
    | nil => exact .pure tail
    | cons => simp [listTo, nesting] at h
  | succ room =>
    rw [build_succ]
    exact .pure _

end Value

/-! ## All together -/

/-- Under a recursion limit nothing is too deep that is nested within the bound of the operation. -/
structure Affords (limit : Nat) (bound : Operation → Nat) : Prop where
  read : ∀ s : Source, Text.nesting s.unread ≤ bound .reading →
    Shallow (Datum.read (Operation.reading.room limit) s).1
  render : ∀ names (v : Value), v.nesting ≤ bound .writing →
    Shallow (v.render names (Operation.writing.room limit))
  equal : ∀ x y : Value, x.nesting ≤ bound .comparing → y.nesting ≤ bound .comparing →
    ∃ same, x.equal (Operation.comparing.room limit) y = .ok same
  flatten : ∀ construct (v : Value), v.nesting ≤ bound .flattening →
    Shallow (v.gather construct [] (Operation.flattening.room limit))
  build : ∀ id items tail, (Value.listTo id items tail).nesting ≤ bound .building →
    Shallow (Value.build id (Operation.building.room limit) items.reverse tail)

theorem Affords.of_le_room {limit : Nat} {bound : Operation → Nat}
    (h : ∀ op, bound op ≤ op.room limit) : Affords limit bound where
  read _ hs := Datum.read_ne_tooDeep (Nat.le_trans hs (h .reading))
  render names _ hv := Value.shallow_render names (Nat.le_trans hv (h .writing))
  equal _ _ hx _ := Value.exists_equal_eq_ok (.inl (Nat.le_trans hx (h .comparing)))
  flatten construct _ hv := Value.shallow_gather construct (Nat.le_trans hv (h .flattening))
  build id _ _ hmade := Value.shallow_build id (Nat.le_trans hmade (h .building))

/-- The default limit affords a nesting of 600, whatever the length of the lists, and every limit
affords each operation as many levels as it can spend activations on. Where there is room for a call
at all, items taken one after the other are those of the list, and pairs made one after the other
are the list that is made. -/
theorem limit_affords_nesting :
    (Affords Settings.defaultLimit fun _ => 600) ∧
    (∀ limit, Affords limit fun op => op.room limit) ∧
    (∀ construct (v : Value) room m,
      Action.ofExcept (v.gather construct [] (room + 1)) m = Action.properList construct v m) ∧
    ∀ (s : Store) items tail room,
      Value.build s.nextId (room + 1) items.reverse tail = .ok (s.newList items tail).1 := by
  refine ⟨.of_le_room fun op => ?_, fun limit => .of_le_room fun _ => Nat.le_refl _,
    fun construct v room m => ?_, fun s items tail room => ?_⟩
  · have hcost : op.cost * 600 + Cost.margin ≤ Settings.defaultLimit := by
      cases op <;> decide
    exact op.le_room hcost
  · rw [Value.gather_succ, Action.properList]
    cases v.toList? <;> rfl
  · rw [Value.build_succ, List.reverse_reverse]
    rfl

end Keel
