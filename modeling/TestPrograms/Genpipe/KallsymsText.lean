import TestPrograms.Genpipe.Kallsyms

/-! # The text of `/proc/kallsyms`

A line has sixteen digits, a type and a name, and for a symbol of a module the module's
name in brackets.
-/

namespace TestPrograms.Genpipe

open TestPrograms.Foundations

def space : Byte := 0x20#8

def tab : Byte := 0x09#8

def isalpha (c : Byte) : Bool := 0x41#8 ≤ c ∧ c ≤ 0x5a#8 ∨ 0x61#8 ≤ c ∧ c ≤ 0x7a#8

def isblank (c : Byte) : Bool := c = space ∨ c = tab ∨ c = newline

structure Line where
  digits : List Byte
  type : Byte
  name : List Byte
  /-- What stands between the brackets. -/
  tag : Option (List Byte)
  sixteen : digits.length = 16
  hex : ∀ c ∈ digits, isxdigit c
  letter : isalpha type
  unbroken : ∀ c ∈ name, ¬ isblank c
  oneLine : ∀ inner ∈ tag, newline ∉ inner

theorem oneLine_none : ∀ inner ∈ (none : Option (List Byte)), newline ∉ inner := by simp

namespace Line

def tagText (line : Line) : List Byte :=
  match line.tag with
  | none => []
  | some inner => [tab, 0x5b#8] ++ inner ++ [0x5d#8]

/-- The line without its newline. -/
def body (line : Line) : List Byte :=
  line.digits ++ ([space, line.type, space] ++ (line.name ++ line.tagText))

def address (line : Line) : Addr := BitVec.ofNat 64 (hexNumber line.digits)

end Line

def textOf (lines : List Line) : List Byte := unlines newline (lines.map Line.body)

/-! ## Characters -/

theorem hex_no_space : ∀ c : Byte, isxdigit c → ¬ isspace c ∧ c ≠ 0x78#8 ∧ c ≠ 0x58#8 := by decide

theorem letter_no_space : ∀ c : Byte, isalpha c → ¬ isspace c := by decide

theorem newline_isspace : isspace newline := by decide

theorem space_isblank : isblank space := by decide

theorem newline_isblank : isblank newline := by decide

theorem space_no_digit : ¬ isxdigit space := by decide

theorem space_not_mem {name : List Byte} (unbroken : ∀ c ∈ name, ¬ isblank c) : space ∉ name :=
  fun member => unbroken space member space_isblank

/-! ## One line -/

namespace Line

variable (line : Line)

theorem newline_not_mem_body : newline ∉ line.body := by
  intro member
  have blank := newline_isspace
  simp only [body, List.mem_append, List.mem_cons, List.not_mem_nil, or_false] at member
  rcases member with digit | (space_ | type | space_) | name | tag
  · exact (hex_no_space _ (line.hex _ digit)).1 blank
  · exact absurd space_ (by decide)
  · exact letter_no_space _ line.letter (type ▸ blank)
  · exact absurd space_ (by decide)
  · exact line.unbroken _ name newline_isblank
  · unfold tagText at tag
    split at tag
    · exact List.not_mem_nil tag
    · rename_i inner given
      simp only [List.mem_append, List.mem_cons, List.not_mem_nil, or_false] at tag
      rcases tag with ((tab_ | bracket) | inside) | bracket
      · exact absurd tab_ (by decide)
      · exact absurd bracket (by decide)
      · exact line.oneLine inner given inside
      · exact absurd bracket (by decide)

theorem sscanf_digits (rest : List Byte) :
    sscanf (line.digits ++ space :: rest) = some line.address := by
  have sixteen := line.sixteen
  have hex := line.hex
  unfold address
  generalize line.digits = digits at *
  cases digits with
  | nil => simp at sixteen
  | cons first digits =>
    cases digits with
    | nil => simp at sixteen
    | cons second digits =>
      have firstHex := hex first List.mem_cons_self
      have secondHex := hex second (List.mem_cons_of_mem _ List.mem_cons_self)
      have plain : skipRadix (first :: second :: digits ++ space :: rest) =
          first :: second :: digits ++ space :: rest := by
        rw [skipRadix, if_neg]
        simp only [List.cons_append, List.getElem?_cons_succ, List.getElem?_cons_zero,
          Option.some.injEq, not_and, not_or]
        exact fun _ => (hex_no_space _ secondHex).2
      have starts : (first :: second :: digits ++ space :: rest).dropWhile isspace =
          first :: second :: digits ++ space :: rest := by
        rw [List.cons_append, List.dropWhile_cons_of_neg (hex_no_space _ firstHex).1]
      rw [sscanf, starts, plain, if_pos (by simpa using firstHex),
        List.takeWhile_append_of_pos hex, List.takeWhile_cons_of_neg space_no_digit,
        List.append_nil]

theorem sscanf_newline (rest : List Byte) :
    sscanf (newline :: (line.digits ++ space :: rest)) = some line.address := by
  rw [← line.sscanf_digits rest, sscanf, sscanf, List.dropWhile_cons_of_pos newline_isspace]

theorem name_of_suffix {name : List Byte} (some : name ≠ []) (unbroken : ∀ c ∈ name, ¬ isblank c)
    (bracket : 0x5d#8 ∉ name) :
    space :: name <:+ line.body ↔ line.tag = none ∧ line.name = name := by
  have split : line.body =
      (line.digits ++ [space, line.type]) ++ space :: (line.name ++ line.tagText) := by
    simp [body]
  rw [split, tagText]
  constructor
  · rintro ⟨before, same⟩
    cases tag : line.tag with
    | some inner =>
      -- the line ends with the bracket
      rw [tag] at same
      have last := congrArg List.getLast? same
      simp [List.getLast?_cons, List.getLast?_eq_some_getLast some] at last
      exact absurd (last ▸ List.getLast_mem some) bracket
    | none =>
      rw [tag, List.append_nil] at same
      exact ⟨rfl, (Lines.back_unique (space_not_mem unbroken)
        (space_not_mem line.unbroken) same).symm⟩
  · rintro ⟨tag, rfl⟩
    rw [tag, List.append_nil]
    exact List.suffix_append _ _

end Line

/-! ## The whole text -/

section

variable {lines before after : List Line} {line : Line} {front : List Byte} {index : Nat}

theorem textOf_append (before after : List Line) :
    textOf (before ++ after) = textOf before ++ textOf after := by
  rw [textOf, List.map_append, unlines_append, textOf, textOf]

theorem textOf_cons (line : Line) (lines : List Line) :
    textOf (line :: lines) = line.body ++ newline :: textOf lines := by
  rw [textOf, List.map_cons, unlines_cons, textOf]

theorem textOf_concat (before : List Line) (line : Line) :
    textOf (before ++ [line]) = textOf before ++ line.body ++ [newline] := by
  rw [textOf_append, textOf_cons, List.append_assoc]
  rfl

/-- What ends with a newline stands in the text at the end of a line. -/
theorem occursAt_textOf (unbroken : newline ∉ front) :
    OccursAt (front ++ [newline]) (textOf lines) index ↔
      ∃ before line after, lines = before ++ line :: after ∧ front <:+ line.body ∧
        index + front.length = (textOf before).length + line.body.length := by
  have whole : ∀ body ∈ lines.map Line.body, newline ∉ body := by
    intro body member
    obtain ⟨line, _, rfl⟩ := List.mem_map.mp member
    exact line.newline_not_mem_body
  rw [textOf, occursAt_unlines unbroken whole]
  constructor
  · rintro ⟨_, _, _, split, suffix, place⟩
    obtain ⟨before, rest, rfl, rfl, tail⟩ := List.map_eq_append_iff.mp split
    obtain ⟨line, after, rfl, rfl, rfl⟩ := List.map_eq_cons_iff.mp tail
    exact ⟨before, line, after, rfl, suffix, place⟩
  · rintro ⟨before, line, after, rfl, suffix, place⟩
    exact ⟨before.map Line.body, line.body, after.map Line.body, by simp, suffix, place⟩

theorem textOf_last (some : lines ≠ []) :
    (textOf lines)[(textOf lines).length - 1]? = .some newline := by
  obtain ⟨before, line, rfl⟩ := List.eq_nil_or_concat lines |>.resolve_left some
  rw [List.concat_eq_append, textOf_concat]
  simp

theorem occursAt_line (some : before ≠ []) :
    OccursAt (newline :: (line.body ++ [newline])) (textOf (before ++ line :: after))
      ((textOf before).length - 1) := by
  obtain ⟨lead, last, rfl⟩ := List.eq_nil_or_concat before |>.resolve_left some
  have split : textOf (lead.concat last ++ line :: after) =
      (textOf lead ++ last.body) ++ (newline :: (line.body ++ [newline]) ++ textOf after) := by
    rw [List.concat_eq_append, textOf_append, textOf_concat, textOf_cons]
    simp
  have length : (textOf (lead.concat last)).length - 1 = (textOf lead ++ last.body).length := by
    rw [List.concat_eq_append, textOf_concat]
    simp
  rw [split, length]
  exact occursAt_between _ _

theorem Line.body_long (line : Line) : 19 ≤ line.body.length := by
  have := line.sixteen
  simp [body]
  omega

theorem textOf_long (some : before ≠ []) : 20 ≤ (textOf before).length := by
  cases before with
  | nil => exact absurd rfl some
  | cons line lines =>
    have := line.body_long
    rw [textOf_cons]
    simp
    omega

theorem textOf_head (some : lines ≠ []) :
    (textOf lines)[16]? = .some space ∧ ∀ k < 16, (textOf lines)[k]? ≠ .some newline := by
  cases lines with
  | nil => exact absurd rfl some
  | cons line lines =>
    have sixteen := line.sixteen
    rw [textOf_cons, Line.body, List.append_assoc]
    constructor
    · rw [List.getElem?_append_right (by omega), sixteen]
      rfl
    · intro k low digit
      rw [List.getElem?_append_left (by omega)] at digit
      exact (hex_no_space _ (line.hex _ (List.mem_of_getElem? digit))).1 newline_isspace

/-- The symbol at the head of the text is not completed by what stands before the text. -/
theorem occursAt_after_junk {junk name : List Byte} (unbroken : ∀ c ∈ name, ¬ isblank c)
    (occurs : OccursAt (space :: name ++ [newline]) (junk ++ textOf lines) index)
    (early : index < junk.length) : OccursAt (space :: name ++ [newline]) junk index := by
  have fits := occurs.fits (by simp)
  by_cases inside : index + (space :: name ++ [newline]).length ≤ junk.length
  · have shows : Shows (junk ++ textOf lines) junk 0 junk.length := fun k low => by
      rw [Nat.zero_add, List.getElem?_append_left low]
    exact (shows.occursAt inside).mpr (by rwa [Nat.zero_add])
  · exfalso
    have occurs := occursAt_iff.mp occurs
    simp only [List.length_append, List.length_cons, List.length_nil] at fits inside occurs
    have some : lines ≠ [] := by
      rintro rfl
      simp [textOf, unlines] at fits
      omega
    obtain ⟨blank, digits⟩ := textOf_head some
    have shift : ∀ k, junk.length - index ≤ k →
        (junk ++ textOf lines)[index + k]? = (textOf lines)[k - (junk.length - index)]? := by
      intro k past
      rw [List.getElem?_append_right (by omega)]
      congr 1
      omega
    -- the newline of the pattern is behind the digits, so the space after them is in it too
    have stop := occurs (name.length + 1) (by omega)
    rw [shift _ (by omega)] at stop
    have late : 16 ≤ name.length + 1 - (junk.length - index) := by
      by_contra low
      refine digits (name.length + 1 - (junk.length - index)) (by omega) ?_
      simpa using stop
    have blank' := occurs (junk.length - index + 16) (by omega)
    rw [shift _ (by omega), Nat.add_sub_cancel_left, blank] at blank'
    have member : space ∈ name ++ [newline] := by
      rw [Option.some.inj blank']
      exact List.getElem_mem (l := name ++ [newline]) (n := junk.length - index + 15) (by simp; omega)
    rcases List.mem_append.mp member with inName | last
    · exact space_not_mem unbroken inName
    · exact absurd (List.mem_singleton.mp last) (by decide)

end

/-! ## Behind what the buffer held -/

section

variable {buf window pattern text : List Byte} {lines : List Line} {start shown k : Nat}

theorem length_lowerHalf (length : buf.length = 128) : (buf.take 64).length = 64 := by
  simp [length]

theorem occursAt_behind (length : buf.length = 128) :
    OccursAt pattern (buf.take 64 ++ text) (64 + k) ↔ OccursAt pattern text k := by
  have shift : OccursAt pattern (buf.take 64 ++ text) ((buf.take 64).length + k) ↔
      OccursAt pattern text k := occursAt_append_right _
  rwa [length_lowerHalf length] at shift

theorem stream_ends (view : View 64 buf (buf.take 64 ++ textOf lines) window start shown)
    (length : buf.length = 128) :
    (buf.take 64 ++ textOf lines)[(buf.take 64 ++ textOf lines).length - 1]? = some newline := by
  have half := length_lowerHalf length
  have more := view.more
  have inText := view.inText
  have some : lines ≠ [] := by
    rintro rfl
    simp [textOf, unlines, half] at inText
    omega
  rw [List.length_append, half] at inText ⊢
  rw [List.getElem?_append_right (by omega), half,
    show 64 + (textOf lines).length - 1 - 64 = (textOf lines).length - 1 by omega]
  exact textOf_last some

end

end TestPrograms.Genpipe
