import Mathlib.Tactic.Ring
import TestPrograms.Foundations.Decimal

/-! # `fscanf` of integers

A format of `%d` and single characters, over the input that is left.  A call stops at the first
directive that fails, what the earlier ones have consumed is gone, and the character that does
not match is the next to be read.  A sign with no digits after it is consumed.
-/

namespace TestPrograms.Foundations.Scanf

open TestPrograms.Foundations.Decimal

/-- `isspace` of the C locale. -/
def isSpace (c : Char) : Bool := 9 ≤ c.toNat ∧ c.toNat ≤ 13 ∨ c = ' '

def isSign (c : Char) : Bool := c = '+' ∨ c = '-'

/-- `%d`, or a character that is neither white space nor `%`. -/
inductive Directive where
  | d
  | lit (c : Char)
  deriving DecidableEq, Repr

inductive Item where
  | value (v : BitVec 32) (rest : List Char)
  | mismatch (rest : List Char)
  | ended
  deriving DecidableEq, Repr

/-- As `strtol` has it, cut to an `int`. -/
def intOf (negative : Bool) (n : Nat) : BitVec 32 :=
  let value : Int := if negative then -n else n
  BitVec.ofInt 32 (max (-2 ^ 63) (min (2 ^ 63 - 1) value))

def scanInt (input : List Char) : Item :=
  match input.dropWhile isSpace with
  | [] => .ended
  | c :: rest =>
    let digits := if isSign c then rest else c :: rest
    match Decimal.read digits with
    | none => .mismatch digits
    | some (n, rest) => .value (intOf (c = '-') n) rest

inductive Stop where
  | all
  | mismatch
  | ended
  deriving DecidableEq, Repr

/-- What a call has stored, in order, what is left of the input and why the call stopped. -/
structure Scanned where
  values : List (BitVec 32)
  rest : List Char
  stop : Stop
  deriving DecidableEq, Repr

def scan : List Directive → List Char → Scanned
  | [], input => { values := [], rest := input, stop := .all }
  | .lit _ :: _, [] => { values := [], rest := [], stop := .ended }
  | .lit c :: format, next :: rest =>
    if next = c then scan format rest else { values := [], rest := next :: rest, stop := .mismatch }
  | .d :: format, input =>
    match scanInt input with
    | .ended => { values := [], rest := [], stop := .ended }
    | .mismatch rest => { values := [], rest, stop := .mismatch }
    | .value v rest =>
      let later := scan format rest
      { later with values := v :: later.values }

/-- The value returned is `EOF`. -/
def Scanned.Eof (s : Scanned) : Prop := s.stop = .ended ∧ s.values = []

instance (s : Scanned) : Decidable s.Eof := inferInstanceAs (Decidable (_ ∧ _))

/-- `%d` with the characters of `due` between one and the next. -/
def numbers (due : List Char) : List Directive := .d :: due.flatMap fun c => [.lit c, .d]

/-! ## Numbers that are there -/

/-- The text is a numeral of an `int`, with a sign or without. -/
inductive Spells : List Char → BitVec 32 → Prop where
  | plain {digits : List Char} {v : BitVec 32} (numeral : IsNumeral digits)
      (value : (Nat.ofDigitChars 10 digits 0 : Int) = v.toInt) : Spells digits v
  | plus {digits : List Char} {v : BitVec 32} (numeral : IsNumeral digits)
      (value : (Nat.ofDigitChars 10 digits 0 : Int) = v.toInt) : Spells ('+' :: digits) v
  | minus {digits : List Char} {v : BitVec 32} (numeral : IsNumeral digits)
      (value : -(Nat.ofDigitChars 10 digits 0 : Int) = v.toInt) : Spells ('-' :: digits) v

/-- Numerals with the characters of `due` between one and the next. -/
inductive SpellsAll : List Char → List Char → List (BitVec 32) → Prop where
  | last {text : List Char} {v : BitVec 32} (spells : Spells text v) : SpellsAll [] text [v]
  | cons {sep : Char} {due text more : List Char} {v : BitVec 32} {vs : List (BitVec 32)}
      (spells : Spells text v) (apart : ¬ sep.isDigit) (later : SpellsAll due more vs) :
      SpellsAll (sep :: due) (text ++ sep :: more) (v :: vs)

theorem intOf_of_int (negative : Bool) {n : Nat} {v : BitVec 32}
    (value : (if negative then -(n : Int) else n) = v.toInt) : intOf negative n = v := by
  have low := v.le_toInt
  have high := v.toInt_lt
  have clamped : max (-2 ^ 63) (min (2 ^ 63 - 1) v.toInt) = v.toInt := by omega
  rw [intOf, value, clamped, BitVec.ofInt_toInt]

theorem digit_plain {c : Char} (digit : c.isDigit) : isSpace c = false ∧ isSign c = false ∧ c ≠ '-' := by
  have range : 48 ≤ c.toNat ∧ c.toNat ≤ 57 := by
    simpa [Char.isDigit, UInt32.le_iff_toNat_le] using digit
  have other (special : Char) (below : special.toNat < 48) : c ≠ special := by
    rintro rfl
    omega
  refine ⟨?_, ?_, other '-' (by decide)⟩
  · have tabs : ¬ (9 ≤ c.toNat ∧ c.toNat ≤ 13) := by omega
    simp [isSpace, tabs, other ' ' (by decide)]
  · simp [isSign, other '+' (by decide), other '-' (by decide)]

theorem dropWhile_blanks {blanks rest : List Char} (white : ∀ c ∈ blanks, isSpace c) {c : Char}
    (other : isSpace c = false) : (blanks ++ c :: rest).dropWhile isSpace = c :: rest := by
  have stops : ¬ isSpace c = true := by rw [other]; exact Bool.false_ne_true
  rw [List.dropWhile_append_of_pos white, List.dropWhile_cons_of_neg stops]

theorem scanInt_spells {blanks text rest : List Char} {v : BitVec 32} (white : ∀ c ∈ blanks, isSpace c)
    (spells : Spells text v) (ends : Ends rest) : scanInt (blanks ++ (text ++ rest)) = .value v rest := by
  cases spells with
  | plain numeral value =>
    have found := read_append numeral ends
    obtain ⟨c, digits, rfl⟩ := List.exists_cons_of_ne_nil numeral.some
    obtain ⟨noSpace, noSign, noMinus⟩ := digit_plain (numeral.all c List.mem_cons_self)
    rw [List.cons_append] at found ⊢
    simp only [scanInt, dropWhile_blanks white noSpace, noSign, Bool.false_eq_true, if_false, found,
      decide_eq_false noMinus, intOf_of_int false value]
  | plus numeral value =>
    simp only [scanInt, List.cons_append, dropWhile_blanks white (show isSpace '+' = false from rfl),
      show isSign '+' = true from rfl, read_append numeral ends, if_true]
    exact congrArg (Item.value · rest) (intOf_of_int false value)
  | minus numeral value =>
    simp only [scanInt, List.cons_append, dropWhile_blanks white (show isSpace '-' = false from rfl),
      show isSign '-' = true from rfl, read_append numeral ends, if_true]
    exact congrArg (Item.value · rest) (intOf_of_int true value)

/-! ## Calls -/

theorem numbers_cons (sep : Char) (due : List Char) : numbers (sep :: due) = .d :: .lit sep :: numbers due :=
  rfl

/-- A call whose first number is there: the format is at its end, or wants a character next. -/
theorem scan_numbers {input rest : List Char} {v : BitVec 32} (found : scanInt input = .value v rest) :
    scan (numbers []) input = { values := [v], rest, stop := .all } ∧
      ∀ sep due, scan (numbers (sep :: due)) input =
        let later := scan (.lit sep :: numbers due) rest
        { later with values := v :: later.values } := by
  refine ⟨?_, fun sep due => ?_⟩
  · rw [numbers, scan, found]
    rfl
  · rw [numbers_cons, scan, found]

/-- Numerals with the right characters between them are all stored. -/
theorem scan_spells {due text rest blanks : List Char} {vs : List (BitVec 32)}
    (white : ∀ c ∈ blanks, isSpace c) (spells : SpellsAll due text vs) (ends : Ends rest) :
    scan (numbers due) (blanks ++ (text ++ rest)) = { values := vs, rest, stop := .all } := by
  induction spells generalizing blanks with
  | last spells => exact (scan_numbers (scanInt_spells white spells ends)).1
  | @cons sep due text more v vs spells apart later ih =>
    have stops : Ends (sep :: (more ++ rest)) := ends_cons.mpr apart
    have onward := @ih [] (fun _ member => absurd member List.not_mem_nil)
    rw [List.append_assoc, List.cons_append, (scan_numbers (scanInt_spells white spells stops)).2, scan,
      if_pos rfl]
    rw [List.nil_append] at onward
    rw [onward]

theorem scan_blank (due : List Char) {blanks : List Char} (white : ∀ c ∈ blanks, isSpace c) :
    (scan (numbers due) blanks).Eof := by
  have ended : scanInt blanks = .ended := by
    rw [scanInt, List.dropWhile_eq_nil_iff.mpr white]
  rw [numbers, scan, ended]
  exact ⟨rfl, rfl⟩

/-! ## A buffer that is filled again -/

/-- `scanf` on a stream with `buffer` read ahead, and what the next reads of the file return.
    A call wants the next character to know that a number has ended, so it reads again if and
    only if it has come to the end of the buffer. -/
def scanf (format : List Directive) (buffer : List Char) : List (List Char) → Scanned × List (List Char)
  | [] => (scan format buffer, [])
  | text :: reads =>
    let scanned := scan format buffer
    if scanned.rest ≠ [] then (scanned, text :: reads)
    -- the end of the file
    else if text = [] then (scanned, reads)
    else scanf format (buffer ++ text) reads

/-- A call that stops short of the buffer's end reads nothing. -/
theorem scanf_buffered {format : List Directive} {buffer : List Char} (more : (scan format buffer).rest ≠ [])
    (reads : List (List Char)) : scanf format buffer reads = (scan format buffer, reads) := by
  cases reads with
  | nil => rw [scanf]
  | cons text reads => rw [scanf, if_pos more]

/-- A call that finds only white space reads once if that is enough. -/
theorem scanf_blank {due blanks text : List Char} (white : ∀ c ∈ blanks, isSpace c)
    (more : (scan (numbers due) (blanks ++ text)).rest ≠ []) (reads : List (List Char)) :
    scanf (numbers due) blanks (text :: reads) = (scan (numbers due) (blanks ++ text), reads) := by
  have ended : scanInt blanks = .ended := by
    rw [scanInt, List.dropWhile_eq_nil_iff.mpr white]
  have empty : (scan (numbers due) blanks).rest = [] := by rw [numbers, scan, ended]
  have some : text ≠ [] := by
    rintro rfl
    rw [List.append_nil] at more
    exact more empty
  rw [scanf, if_neg (not_not_intro empty), if_neg some, scanf_buffered more]

/-! ## Numbers in the range of `long` -/

theorem scanInt_numeral {blanks digits rest : List Char} (white : ∀ c ∈ blanks, isSpace c)
    (numeral : IsNumeral digits) (ends : Ends rest) :
    scanInt (blanks ++ (digits ++ rest)) = .value (intOf false (Nat.ofDigitChars 10 digits 0)) rest := by
  have found := read_append numeral ends
  obtain ⟨c, digits, rfl⟩ := List.exists_cons_of_ne_nil numeral.some
  obtain ⟨noSpace, noSign, noMinus⟩ := digit_plain (numeral.all c List.mem_cons_self)
  rw [List.cons_append] at found ⊢
  simp only [scanInt, dropWhile_blanks white noSpace, noSign, Bool.false_eq_true, if_false, found,
    decide_eq_false noMinus]

/-- An `int` gets the lower half of a number that `long` can hold. -/
theorem intOf_ofNat {n : Nat} (small : n < 2 ^ 63) : intOf false n = BitVec.ofNat 32 n := by
  have clamped : max (-2 ^ 63) (min (2 ^ 63 - 1) (n : Int)) = n := by omega
  rw [intOf, if_neg Bool.false_ne_true, clamped, BitVec.ofInt_natCast]

end TestPrograms.Foundations.Scanf
