import TestPrograms.Foundations.Scanf

/-! # Calls of `fscanf` again and again

The input of a loop of calls with one format of numbers, read character by character.  A call
consumes something unless a character is in the way that can begin no number, and such a
character stays in the way.
-/

namespace TestPrograms.Foundations.Scanf

open TestPrograms.Foundations.Decimal

inductive Phase where
  | blank
  | sign
  | digits
  deriving DecidableEq, Repr

/-- How much of a number has been read, and the characters due after it. -/
structure Place where
  due : List Char
  phase : Phase
  deriving DecidableEq, Repr

/-- White space or the first character of a number. -/
def enter (due : List Char) (c : Char) : Option Place :=
  if c.isDigit then some { due, phase := .digits }
  else if isSign c then some { due, phase := .sign }
  else if isSpace c then some { due, phase := .blank }
  else none

/-- The place after one more character, where another call begins if this one cannot go on. -/
def Place.next (all : List Char) (p : Place) (c : Char) : Option Place :=
  match p.phase with
  | .blank => enter p.due c
  | .sign => if c.isDigit then some { p with phase := .digits } else enter all c
  | .digits =>
    if c.isDigit then some p
    else if p.due.head? = some c then some { due := p.due.tail, phase := .blank }
    else enter all c

/-- No character is in the way. -/
def Clean (all : List Char) : Place → List Char → Prop
  | _, [] => True
  | p, c :: rest =>
    match p.next all c with
    | some p => Clean all p rest
    | none => False

theorem Clean.cons_of_next {all rest : List Char} {p q : Place} {c : Char} (next : p.next all c = some q) :
    Clean all p (c :: rest) ↔ Clean all q rest := by
  rw [Clean, next]

theorem Clean.cons_of_none {all rest : List Char} {p : Place} {c : Char} (next : p.next all c = none) :
    ¬ Clean all p (c :: rest) := by
  rw [Clean, next]
  exact not_false

instance decidableClean (all : List Char) : (p : Place) → (input : List Char) → Decidable (Clean all p input)
  | _, [] => isTrue trivial
  | p, c :: rest =>
    match next : p.next all c with
    | some q =>
      have := decidableClean all q rest
      decidable_of_iff (Clean all q rest) (Clean.cons_of_next next).symm
    | none => isFalse (Clean.cons_of_none next)

theorem Clean.congr {all : List Char} {p q : Place} {input : List Char}
    (alike : ∀ c ∈ input.head?, p.next all c = q.next all c) : Clean all p input ↔ Clean all q input := by
  cases input with
  | nil => exact Iff.rfl
  | cons c rest => rw [Clean, Clean, alike c rfl]

section

variable {all due : List Char}

theorem enter_digit {c : Char} (digit : c.isDigit) : enter due c = some { due, phase := .digits } := by
  rw [enter, if_pos digit]

theorem enter_sign {c : Char} (sign : isSign c) : enter due c = some { due, phase := .sign } := by
  have plain : ¬ c.isDigit := fun digit => by rw [(digit_plain digit).2.1] at sign; cases sign
  rw [enter, if_neg plain, if_pos sign]

theorem enter_space {c : Char} (space : isSpace c) : enter due c = some { due, phase := .blank } := by
  have plain : ¬ c.isDigit := fun digit => by rw [(digit_plain digit).1] at space; cases space
  have unsigned : ¬ isSign c := by
    intro sign
    rcases of_decide_eq_true sign with rfl | rfl <;> cases space
  rw [enter, if_neg plain, if_neg unsigned, if_pos space]

theorem enter_other {c : Char} (noDigit : ¬ c.isDigit) (noSign : ¬ isSign c) (noSpace : ¬ isSpace c) :
    enter due c = none := by
  rw [enter, if_neg noDigit, if_neg noSign, if_neg noSpace]

theorem clean_dropWhile_space (input : List Char) :
    Clean all { due, phase := .blank } (input.dropWhile isSpace) ↔
      Clean all { due, phase := .blank } input := by
  induction input with
  | nil => exact Iff.rfl
  | cons c rest ih =>
    by_cases space : isSpace c = true
    · rw [List.dropWhile_cons_of_pos space, ih,
        Clean.cons_of_next (p := { due, phase := .blank }) (enter_space space)]
    · rw [List.dropWhile_cons_of_neg space]

theorem clean_dropWhile_digit (input : List Char) :
    Clean all { due, phase := .digits } (input.dropWhile Char.isDigit) ↔
      Clean all { due, phase := .digits } input := by
  induction input with
  | nil => exact Iff.rfl
  | cons c rest ih =>
    by_cases digit : c.isDigit = true
    · rw [List.dropWhile_cons_of_pos digit, ih]
      exact (Clean.cons_of_next (p := { due, phase := .digits }) (if_pos digit)).symm
    · rw [List.dropWhile_cons_of_neg digit]

end

/-! ## One number -/

/-- Where `%d` comes to after white space: a sign or none, and then digits or none. -/
inductive Sight (input : List Char) : Item → Prop where
  | ended (blank : input.dropWhile isSpace = []) : Sight input .ended
  | bare {c : Char} {rest : List Char} (found : input.dropWhile isSpace = c :: rest) (noDigit : ¬ c.isDigit)
      (noSign : ¬ isSign c) : Sight input (.mismatch (c :: rest))
  | lone {c : Char} {rest : List Char} (found : input.dropWhile isSpace = c :: rest) (sign : isSign c)
      (ends : Ends rest) : Sight input (.mismatch rest)
  | unsigned {c : Char} {digits : List Char} {v : BitVec 32} (found : input.dropWhile isSpace = c :: digits)
      (digit : c.isDigit) : Sight input (.value v (digits.dropWhile Char.isDigit))
  | signed {c first : Char} {digits : List Char} {v : BitVec 32}
      (found : input.dropWhile isSpace = c :: first :: digits) (sign : isSign c) (digit : first.isDigit) :
      Sight input (.value v (digits.dropWhile Char.isDigit))

theorem scanInt_sight (input : List Char) : Sight input (scanInt input) := by
  unfold scanInt
  split
  · rename_i blank
    exact .ended blank
  · rename_i c rest found
    by_cases sign : isSign c
    · simp only [sign, if_true]
      cases rest with
      | nil => exact .lone found sign rfl
      | cons first digits =>
        by_cases digit : first.isDigit = true
        · simp only [Decimal.read, List.head?_cons, Option.any_some, digit, if_true]
          rw [List.dropWhile_cons_of_pos digit]
          exact .signed found sign digit
        · simp only [Decimal.read, List.head?_cons, Option.any_some, digit, Bool.false_eq_true, if_false]
          exact .lone found sign (ends_cons.mpr digit)
    · simp only [sign, Bool.false_eq_true, if_false]
      by_cases digit : c.isDigit = true
      · simp only [Decimal.read, List.head?_cons, Option.any_some, digit, if_true]
        rw [List.dropWhile_cons_of_pos digit]
        exact .unsigned found digit
      · simp only [Decimal.read, List.head?_cons, Option.any_some, digit, Bool.false_eq_true, if_false]
        exact .bare found digit sign

section

variable {all due input : List Char}

theorem clean_of_ended (ended : scanInt input = .ended) : Clean all { due, phase := .blank } input := by
  have sight := scanInt_sight input
  rw [ended] at sight
  cases sight with
  | ended blank => exact (clean_dropWhile_space input).mp (by rw [blank]; exact trivial)

theorem head_no_space {c : Char} {rest : List Char} (found : input.dropWhile isSpace = c :: rest) :
    ¬ isSpace c := by
  have first := List.head?_dropWhile_not isSpace input
  rw [found] at first
  simpa using first

/-- After a number that is not there the next call begins. -/
theorem clean_mismatch {rest : List Char} (mismatch : scanInt input = .mismatch rest) :
    (Clean all { due, phase := .blank } input ↔ Clean all { due := all, phase := .blank } rest) ∧
      (Clean all { due, phase := .blank } input → rest.length < input.length) := by
  have sight := scanInt_sight input
  have shorter := List.length_dropWhile_le isSpace input
  rw [mismatch] at sight
  rw [← clean_dropWhile_space input]
  cases sight with
  | @bare c rest found noDigit noSign =>
    have stuck {due : List Char} : ¬ Clean all { due, phase := .blank } (c :: rest) :=
      Clean.cons_of_none (enter_other noDigit noSign (head_no_space found))
    rw [found]
    exact ⟨iff_of_false stuck stuck, fun clean => absurd clean stuck⟩
  | @lone c rest found sign ends =>
    rw [found, List.length_cons] at shorter
    rw [found, Clean.cons_of_next (p := { due, phase := .blank }) (enter_sign sign)]
    exact ⟨Clean.congr fun c first => if_neg (ends.not_digit first), fun _ => shorter⟩

theorem ends_dropWhile (digits : List Char) : Ends (digits.dropWhile Char.isDigit) := by
  have first := List.head?_dropWhile_not Char.isDigit digits
  rw [Ends]
  cases next : (digits.dropWhile Char.isDigit).head? with
  | none => rfl
  | some c =>
    rw [next] at first
    exact first

variable (all due) in
/-- After a number that is there what is due may come. -/
theorem clean_value {v : BitVec 32} {rest : List Char} (value : scanInt input = .value v rest) :
    (Clean all { due, phase := .blank } input ↔ Clean all { due, phase := .digits } rest) ∧
      Ends rest ∧ rest.length < input.length := by
  have sight := scanInt_sight input
  have shorter := List.length_dropWhile_le isSpace input
  rw [value] at sight
  rw [← clean_dropWhile_space input]
  cases sight with
  | @unsigned c digits v found digit =>
    have drop := List.length_dropWhile_le Char.isDigit digits
    rw [found, List.length_cons] at shorter
    rw [found, Clean.cons_of_next (p := { due, phase := .blank }) (enter_digit digit), clean_dropWhile_digit]
    exact ⟨Iff.rfl, ends_dropWhile digits, by omega⟩
  | @signed c first digits v found sign digit =>
    have drop := List.length_dropWhile_le Char.isDigit digits
    rw [found, List.length_cons, List.length_cons] at shorter
    rw [found, Clean.cons_of_next (p := { due, phase := .blank }) (enter_sign sign),
      Clean.cons_of_next (p := { due, phase := .sign }) (if_pos digit), clean_dropWhile_digit]
    exact ⟨Iff.rfl, ends_dropWhile digits, by omega⟩

/-! ## One call -/

theorem scanInt_shorter {rest : List Char} (input : List Char)
    (left : scanInt input = .mismatch rest ∨ ∃ v, scanInt input = .value v rest) :
    rest.length ≤ input.length := by
  rcases left with mismatch | ⟨v, value⟩
  · have sight := scanInt_sight input
    have shorter := List.length_dropWhile_le isSpace input
    rw [mismatch] at sight
    cases sight with
    | bare found noDigit noSign => rwa [found] at shorter
    | lone found sign ends =>
      rw [found, List.length_cons] at shorter
      omega
  · exact Nat.le_of_lt (clean_value [] [] value).2.2

theorem scan_shorter (format : List Directive) (input : List Char) :
    (scan format input).rest.length ≤ input.length := by
  induction format generalizing input with
  | nil => exact Nat.le_refl _
  | cons directive format ih =>
    cases directive with
    | lit c =>
      cases input with
      | nil => exact Nat.le_refl _
      | cons next rest =>
        rw [scan]
        split
        · exact Nat.le_succ_of_le (ih rest)
        · exact Nat.le_refl _
    | d =>
      rw [scan]
      cases found : scanInt input with
      | ended => exact Nat.zero_le _
      | mismatch rest => exact scanInt_shorter input (.inl found)
      | value v rest => exact Nat.le_trans (ih rest) (scanInt_shorter input (.inr ⟨v, found⟩))

theorem clean_not_due {rest : List Char} (ends : Ends rest) (other : ∀ c ∈ rest.head?, due.head? ≠ some c) :
    Clean all { due, phase := .digits } rest ↔ Clean all { due := all, phase := .blank } rest := by
  exact Clean.congr fun c first => (if_neg (ends.not_digit first)).trans (if_neg (other c first))

theorem clean_due {sep : Char} {rest : List Char} (ends : Ends (sep :: rest)) :
    Clean all { due := sep :: due, phase := .digits } (sep :: rest) ↔
      Clean all { due, phase := .blank } rest := by
  exact Clean.cons_of_next ((if_neg (ends_cons.mp ends)).trans (if_pos rfl))

theorem clean_no_value (due : List Char) (none : ∀ v rest, scanInt input ≠ .value v rest) :
    Clean all { due, phase := .blank } input ↔
      Clean all { due := all, phase := .blank } (scan (numbers due) input).rest := by
  rw [numbers, scan]
  cases found : scanInt input with
  | ended => exact iff_of_true (clean_of_ended found) trivial
  | mismatch rest => exact (clean_mismatch found).1
  | value v rest => exact absurd found (none v rest)

/-- What is in the way of a call is in the way of the next. -/
theorem clean_scan (due input : List Char) :
    Clean all { due, phase := .blank } input ↔
      Clean all { due := all, phase := .blank } (scan (numbers due) input).rest := by
  induction due generalizing input with
  | nil =>
    by_cases value : ∃ v rest, scanInt input = .value v rest
    · obtain ⟨v, rest, found⟩ := value
      obtain ⟨onward, ends, -⟩ := clean_value all [] found
      rw [onward, (scan_numbers found).1]
      exact clean_not_due ends fun c _ same => by cases same
    · exact clean_no_value [] fun v rest found => value ⟨v, rest, found⟩
  | cons sep due ih =>
    by_cases value : ∃ v rest, scanInt input = .value v rest
    · obtain ⟨v, rest, found⟩ := value
      obtain ⟨onward, ends, -⟩ := clean_value all (sep :: due) found
      rw [onward, (scan_numbers found).2]
      cases rest with
      | nil => exact Iff.rfl
      | cons next rest =>
        by_cases same : next = sep
        · subst same
          rw [clean_due ends, scan, if_pos rfl]
          exact ih rest
        · rw [scan, if_neg same]
          refine clean_not_due ends fun c first there => same ?_
          exact (Option.some.inj first).trans (Option.some.inj there).symm
    · exact clean_no_value (sep :: due) fun v rest found => value ⟨v, rest, found⟩

theorem clean_of_eof (eof : (scan (numbers due) input).Eof) :
    Clean all { due := all, phase := .blank } input := by
  cases found : scanInt input with
  | ended => exact clean_of_ended found
  | mismatch rest =>
    rw [numbers, scan, found] at eof
    cases eof.1
  | value v rest =>
    rw [numbers, scan, found] at eof
    cases eof.2

/-- With nothing in the way a call that is not at the end consumes something. -/
theorem scan_progress (clean : Clean all { due, phase := .blank } input)
    (more : ¬ (scan (numbers due) input).Eof) :
    (scan (numbers due) input).rest.length < input.length := by
  rw [numbers, scan] at more ⊢
  cases found : scanInt input with
  | ended =>
    rw [found] at more
    exact absurd ⟨rfl, rfl⟩ more
  | mismatch rest => exact (clean_mismatch found).2 clean
  | value v rest =>
    exact Nat.lt_of_le_of_lt (scan_shorter _ rest) (clean_value all due found).2.2

end

end TestPrograms.Foundations.Scanf
