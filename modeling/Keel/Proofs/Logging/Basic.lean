import Keel.Proofs.Discipline.Session
import Keel.Proofs.Retraction

/-! # Turns that tell more

A story lists what happens in a turn: the data that are read, the values that
are found, the faults that are recovered from. A quiet turn reports the faults
only. Another turn does the same and tells the whole story, if everything in it
can be told: the debug form of a value opens one level for every pair on the way,
so that here long lists are deep.
-/

namespace Keel

/-! ## Values that can be told -/

namespace Value

/-- The number of pairs that are open at once in the debug form. -/
def depth : Value → Nat
  | .pair _ car cdr => max car.depth cdr.depth + 1
  | _ => 0

def HasNumerals : Value → Prop
  | .int i => (Nat.toDigits 10 i.natAbs).length ≤ Numeral.maxDigits
  | .pair _ car cdr => car.HasNumerals ∧ cdr.HasNumerals
  | _ => True

def decidableHasNumerals : (v : Value) → Decidable v.HasNumerals
  | .int i => inferInstanceAs (Decidable ((Nat.toDigits 10 i.natAbs).length ≤ Numeral.maxDigits))
  | .pair _ car cdr =>
    have := car.decidableHasNumerals
    have := cdr.decidableHasNumerals
    inferInstanceAs (Decidable (car.HasNumerals ∧ cdr.HasNumerals))
  | .bool _ | .symbol _ | .nil | .primitive .. | .closure _ | .absent | .text _ =>
    .isTrue trivial

instance : DecidablePred HasNumerals :=
  decidableHasNumerals

variable (names : ClosureId → Option String)

theorem exists_inspect {v : Value} {limit : Nat} (hdepth : v.depth ≤ limit) (hv : v.HasNumerals) :
    ∃ text, v.inspect names limit = .ok text := by
  induction v generalizing limit with
  | int i =>
    obtain ⟨w, hw, -⟩ := exists_chars? hv
    exact ⟨String.ofList w, by simp only [inspect, numeral, hw]; rfl⟩
  | pair id car cdr ihcar ihcdr =>
    obtain ⟨inner, rfl⟩ : ∃ inner, limit = inner + 1 :=
      Nat.exists_eq_succ_of_ne_zero (by simp only [depth] at hdepth; omega)
    simp only [depth, Nat.add_le_add_iff_right, Nat.max_le] at hdepth
    obtain ⟨first, hfirst⟩ := ihcar hdepth.1 hv.1
    obtain ⟨second, hsecond⟩ := ihcdr hdepth.2 hv.2
    exact ⟨_, by simp only [inspect, hfirst, hsecond]; rfl⟩
  | _ =>
    simp only [inspect]
    exact ⟨_, rfl⟩

theorem inspect_of_lt_depth {v : Value} {limit : Nat} (hdepth : limit < v.depth)
    (hv : v.HasNumerals) : v.inspect names limit = .error .tooDeep := by
  induction v generalizing limit with
  | pair id car cdr ihcar ihcdr =>
    cases limit with
    | zero => rfl
    | succ inner =>
      rw [inspect]
      by_cases hcar : inner < car.depth
      · rw [ihcar hcar hv.1]
        rfl
      · obtain ⟨first, hfirst⟩ := exists_inspect names (Nat.not_lt.1 hcar) hv.1
        have hcdr : inner < cdr.depth := by
          simp only [depth] at hdepth
          omega
        rw [hfirst, ihcdr hcdr hv.2]
        rfl
  | _ => simp [depth] at hdepth

/-- Every item of a list is one level deeper than the one before it. -/
theorem length_le_depth {v : Value} {items : List Datum} {tail : Datum}
    (h : v.toDatum? = some (.listTo items tail)) : items.length ≤ v.depth := by
  induction items generalizing v with
  | nil => exact Nat.zero_le _
  | cons item items ih =>
    cases v with
    | pair id car cdr =>
      obtain ⟨-, hcdr⟩ : car.toDatum? = some item ∧ cdr.toDatum? = some (.listTo items tail) := by
        simpa [toDatum?, Option.bind_eq_some_iff] using h
      exact Nat.succ_le_succ (Nat.le_trans (ih hcdr) (Nat.le_max_right _ _))
    | _ => simp [toDatum?] at h

theorem hasNumerals_of_readable {v : Value} {d : Datum} (h : v.toDatum? = some d)
    (hd : d.Readable) : v.HasNumerals := by
  induction v generalizing d with
  | int i =>
    obtain rfl := Option.some.inj h
    exact hd
  | pair id car cdr ihcar ihcdr =>
    obtain ⟨first, hfirst, rest, hrest, rfl⟩ :
        ∃ first, car.toDatum? = some first ∧ ∃ rest, cdr.toDatum? = some rest ∧
          Datum.pair first rest = d := by
      simpa [toDatum?, Option.bind_eq_some_iff] using h
    exact ⟨ihcar hfirst hd.1, ihcdr hrest hd.2⟩
  | _ => trivial

end Value

/-! ## Stories -/

/-- Something that happens in a session, with the store as it then is. -/
inductive Happening where
  /-- A datum has been read up to the given line. -/
  | read (expr : Value) (line : Int) (store : Store)
  /-- A form has a value. -/
  | evaluated (expr value : Value) (store : Store)
  /-- The session goes on after a fault. -/
  | recovered (fault : Fault)

namespace Happening

def record (limit : Nat) : Happening → Except Fault Record
  | .read expr line store => return .read (← store.inspect limit expr) line
  | .evaluated expr value store =>
    return .evaluated (← store.inspect limit expr) (← store.inspect limit value)
  | .recovered fault => return .recovered fault.kind

def values : Happening → List Value
  | .read expr _ _ => [expr]
  | .evaluated expr value _ => [expr, value]
  | .recovered _ => []

def reports : Happening → List Entry
  | .recovered fault => [.reported fault]
  | _ => []

def entries (limit : Nat) (x : Happening) : List Entry :=
  match x.record limit with
  | .ok r => .logged r :: x.reports
  | .error _ => x.reports

theorem exists_record {limit : Nat} {x : Happening}
    (h : ∀ v ∈ x.values, v.depth ≤ limit ∧ v.HasNumerals) : ∃ r, x.record limit = .ok r := by
  cases x with
  | read expr line store =>
    obtain ⟨hdepth, hnumerals⟩ := h expr (by simp [values])
    obtain ⟨text, htext⟩ := Value.exists_inspect store.closureName hdepth hnumerals
    exact ⟨_, by simp only [record, Store.inspect, htext]; rfl⟩
  | evaluated expr value store =>
    obtain ⟨hexpr, hexpr'⟩ := h expr (by simp [values])
    obtain ⟨hvalue, hvalue'⟩ := h value (by simp [values])
    obtain ⟨text, htext⟩ := Value.exists_inspect store.closureName hexpr hexpr'
    obtain ⟨text', htext'⟩ := Value.exists_inspect store.closureName hvalue hvalue'
    exact ⟨_, by simp only [record, Store.inspect, htext, htext']; rfl⟩
  | recovered fault => exact ⟨_, rfl⟩

end Happening

/-- What happens in a turn, told by where it starts. -/
abbrev Story := Session → List Happening

namespace Story

variable {α : Type}

def silent : Story := fun _ => []

def andThen (a : Turn α) (next : α → Story) : Story := fun s =>
  match a s with
  | .ok v t => next v t
  | .error .. => []

def orElse (a : Turn α) (next : Fault → Story) : Story := fun s =>
  match a s with
  | .ok .. => []
  | .error fault t => next fault t

end Story

/-- The journal of a story in which faults are reported only, last entry first. -/
def reported (story : List Happening) : List Entry :=
  (story.flatMap Happening.reports).reverse

/-- The journal of a story that is told in full, last entry first. -/
def told (limit : Nat) (story : List Happening) : List Entry :=
  (story.flatMap (Happening.entries limit)).reverse

theorem reported_append (story story' : List Happening) :
    reported (story ++ story') = reported story' ++ reported story := by
  simp [reported]

theorem told_append (limit : Nat) (story story' : List Happening) :
    told limit (story ++ story') = told limit story' ++ told limit story := by
  simp [told]

namespace Session

def withJournal (s : Session) (j : List Entry) : Session :=
  { s with journal := j }

def inJournal {α : Type} (j : List Entry) :
    EStateM.Result Fault Session α → EStateM.Result Fault Session α
  | .ok v s => .ok v (s.withJournal j)
  | .error fault s => .error fault (s.withJournal j)

end Session

open Session

/-- The turn `a` reports the faults of the story. The turn `b` does the same, whatever the journal
is, and tells the story. -/
structure Narrates {α : Type} (limit : Nat) (a b : Turn α) (story : Story) : Prop where
  reports : ∀ s, (a.after s).journal = reported (story s) ++ s.journal
  tells : ∀ s j, (∀ x ∈ story s, ∃ r, x.record limit = .ok r) →
    b (s.withJournal j) = inJournal (told limit (story s) ++ j) (a s)

namespace Narrates

variable {α β : Type} {limit : Nat} {a b : Turn α} {story : Story}

theorem pure (v : α) : Narrates limit (Pure.pure v : Turn α) (Pure.pure v) .silent where
  reports _ := rfl
  tells _ _ _ := rfl

theorem throw (fault : Fault) : Narrates limit (throw fault : Turn α) (throw fault) .silent where
  reports _ := rfl
  tells _ _ _ := rfl

theorem perform (x : Action α) : Narrates limit (perform x) (perform x) .silent where
  reports s := by
    unfold Turn.after
    cases hx : x s.machine with
    | ok v m =>
      rw [perform_of_eq_ok hx]
      rfl
    | error fault m =>
      rw [perform_of_eq_error hx]
      rfl
  tells s j _ := by
    cases hx : x s.machine with
    | ok v m =>
      rw [perform_of_eq_ok hx, perform_of_eq_ok (s := s.withJournal j) hx]
      rfl
    | error fault m =>
      rw [perform_of_eq_error hx, perform_of_eq_error (s := s.withJournal j) hx]
      rfl

theorem bind {k l : α → Turn β} {next : α → Story} (hab : Narrates limit a b story)
    (hkl : ∀ v, Narrates limit (k v) (l v) (next v)) :
    Narrates limit (a >>= k) (b >>= l) fun s => story s ++ Story.andThen a next s where
  reports s := by
    have hreports := hab.reports s
    unfold Turn.after Story.andThen at *
    cases has : a s with
    | ok v t =>
      have hnext := (hkl v).reports t
      unfold Turn.after at hnext
      simp only [has] at hreports
      rw [bind_of_eq_ok has, reported_append, List.append_assoc, ← hreports]
      exact hnext
    | error fault t =>
      simp only [has] at hreports
      rw [bind_of_eq_error has, List.append_nil]
      exact hreports
  tells s j hs := by
    have hstory := hab.tells s j fun x hx => hs x (List.mem_append_left _ hx)
    unfold Story.andThen at *
    cases has : a s with
    | ok v t =>
      simp only [has] at hs hstory ⊢
      have hnext := (hkl v).tells t (told limit (story s) ++ j) fun x hx =>
        hs x (List.mem_append_right _ hx)
      rw [bind_of_eq_ok has, bind_of_eq_ok hstory, told_append, List.append_assoc]
      exact hnext
    | error fault t =>
      simp only [has, List.append_nil] at hstory ⊢
      rw [bind_of_eq_error has, bind_of_eq_error hstory]
      rfl

theorem silent_bind {k l : α → Turn β} {next : α → Story} (hab : Narrates limit a b .silent)
    (hkl : ∀ v, Narrates limit (k v) (l v) (next v)) :
    Narrates limit (a >>= k) (b >>= l) (.andThen a next) :=
  hab.bind hkl

theorem tryCatch {handle handle' : Fault → Turn α} {next : Fault → Story}
    (hab : Narrates limit a b story)
    (hhandle : ∀ fault, Narrates limit (handle fault) (handle' fault) (next fault)) :
    Narrates limit (tryCatch a handle) (tryCatch b handle')
      fun s => story s ++ Story.orElse a next s where
  reports s := by
    have hreports := hab.reports s
    unfold Turn.after Story.orElse at *
    cases has : a s with
    | ok v t =>
      simp only [has] at hreports
      rw [tryCatch_of_eq_ok has, List.append_nil]
      exact hreports
    | error fault t =>
      have hnext := (hhandle fault).reports t
      unfold Turn.after at hnext
      simp only [has] at hreports
      rw [tryCatch_of_eq_error has, reported_append, List.append_assoc, ← hreports]
      exact hnext
  tells s j hs := by
    have hstory := hab.tells s j fun x hx => hs x (List.mem_append_left _ hx)
    unfold Story.orElse at *
    cases has : a s with
    | ok v t =>
      simp only [has, List.append_nil] at hstory ⊢
      rw [tryCatch_of_eq_ok has, tryCatch_of_eq_ok hstory]
      rfl
    | error fault t =>
      simp only [has] at hs hstory ⊢
      have hnext := (hhandle fault).tells t (told limit (story s) ++ j) fun x hx =>
        hs x (List.mem_append_right _ hx)
      rw [tryCatch_of_eq_error has, tryCatch_of_eq_error hstory, told_append, List.append_assoc]
      exact hnext

theorem bind_silent {k l : α → Turn β} (hab : Narrates limit a b story)
    (hkl : ∀ v, Narrates limit (k v) (l v) .silent) : Narrates limit (a >>= k) (b >>= l) story := by
  have hstory : story = fun s => story s ++ Story.andThen a (fun _ => .silent) s := by
    funext s
    unfold Story.andThen Story.silent
    cases a s <;> simp
  exact hstory ▸ hab.bind hkl

/-- What is done may depend on anything but the journal. -/
theorem depending {ι : Type} (view : Session → ι) (hview : ∀ s j, view (s.withJournal j) = view s)
    {F G : ι → Turn α} {h : ι → Story} (hFG : ∀ i, Narrates limit (F i) (G i) (h i)) :
    Narrates limit (fun s => F (view s) s) (fun s => G (view s) s) fun s => h (view s) s where
  reports s := (hFG (view s)).reports s
  tells s j hs := by
    simp only [hview]
    exact (hFG (view s)).tells s j hs

end Narrates

end Keel
