import TestPrograms.Genpipe.KallsymsText

/-! # The range of the driver

Of the lines in two pieces that follow each other only the first with the tag is looked at,
and only if the newline before it is in them too, past the first byte.
-/

namespace TestPrograms.Genpipe

open TestPrograms.Foundations

def tagName : List Byte := ascii "[ixgbe]"

def Line.Tagged (line : Line) : Prop := tagName <:+ line.body

instance (line : Line) : Decidable line.Tagged := inferInstanceAs (Decidable (_ <:+ _))

theorem driverTag_eq : driverTag = tagName ++ [newline] := by decide

theorem driverTag_length : driverTag.length = 8 := by decide

theorem newline_not_mem_tagName : newline ∉ tagName := by decide

/-! ## Running bounds that start at zero -/

section

variable {top bottom adr v : Addr} {values : List Addr}

def lower (top adr : Addr) : Addr := if adr < top ∨ top = 0#64 then adr else top

def raise (bottom adr : Addr) : Addr := if bottom < adr ∨ bottom = 0#64 then adr else bottom

theorem widen_eq (adr : Addr) (s : Scan) : widen adr s =
    { s with driverTop := lower s.driverTop adr, driverBottom := raise s.driverBottom adr } := by
  unfold widen lower raise
  dsimp only
  split_ifs <;> rfl

/-- A fold that keeps one of two values each time ends with one it has been given. -/
theorem foldl_choice {choose : Addr → Addr → Addr}
    (either : ∀ kept next, choose kept next = kept ∨ choose kept next = next) (values : List Addr)
    (first : Addr) : values.foldl choose first = first ∨ values.foldl choose first ∈ values := by
  induction values generalizing first with
  | nil => exact .inl rfl
  | cons next values ih =>
    rw [List.foldl_cons]
    rcases ih (choose first next) with same | member
    · rw [same]
      rcases either first next with kept | taken
      · exact .inl kept
      · rw [taken]
        exact .inr List.mem_cons_self
    · exact .inr (List.mem_cons_of_mem _ member)

theorem raise_spec (bottom adr : Addr) :
    bottom ≤ raise bottom adr ∧ adr ≤ raise bottom adr ∧
      (raise bottom adr = bottom ∨ raise bottom adr = adr) := by
  unfold raise
  split
  · exact ⟨by bv_omega, by bv_omega, .inr rfl⟩
  · exact ⟨by bv_omega, by bv_omega, .inl rfl⟩

theorem foldl_raise (values : List Addr) (bottom : Addr) :
    bottom ≤ values.foldl raise bottom ∧ (∀ v ∈ values, v ≤ values.foldl raise bottom) ∧
      (values.foldl raise bottom = bottom ∨ values.foldl raise bottom ∈ values) := by
  rw [← and_assoc]
  refine ⟨?_, foldl_choice (fun kept next => (raise_spec kept next).2.2) values bottom⟩
  induction values generalizing bottom with
  | nil => exact ⟨BitVec.le_refl _, by simp⟩
  | cons adr values ih =>
    obtain ⟨above, bounds⟩ := ih (raise bottom adr)
    obtain ⟨old, new, -⟩ := raise_spec bottom adr
    rw [List.foldl_cons, List.forall_mem_cons]
    exact ⟨BitVec.le_trans old above, BitVec.le_trans new above, bounds⟩

theorem lower_spec (top : Addr) (nonzero : adr ≠ 0#64) :
    lower top adr ≠ 0#64 ∧ lower top adr ≤ adr ∧ (top ≠ 0#64 → lower top adr ≤ top) := by
  unfold lower
  split
  · exact ⟨nonzero, BitVec.le_refl _, by bv_omega⟩
  · exact ⟨by bv_omega, by bv_omega, fun _ => BitVec.le_refl _⟩

theorem lower_either (top adr : Addr) : lower top adr = top ∨ lower top adr = adr := by
  unfold lower
  split
  · exact .inr rfl
  · exact .inl rfl

theorem foldl_lower (nonzero : ∀ v ∈ values, v ≠ 0#64) (top : Addr) :
    (∀ v ∈ values, values.foldl lower top ≠ 0#64 ∧ values.foldl lower top ≤ v) ∧
      (top ≠ 0#64 → values.foldl lower top ≠ 0#64 ∧ values.foldl lower top ≤ top) ∧
      (values.foldl lower top = top ∨ values.foldl lower top ∈ values) := by
  rw [← and_assoc]
  refine ⟨?_, foldl_choice lower_either values top⟩
  induction values generalizing top with
  | nil => exact ⟨by simp, fun nonzero => ⟨nonzero, BitVec.le_refl _⟩⟩
  | cons adr values ih =>
    rw [List.forall_mem_cons] at nonzero
    obtain ⟨bounds, kept⟩ := ih nonzero.2 (lower top adr)
    obtain ⟨positive, new, old⟩ := lower_spec top nonzero.1
    obtain ⟨positive', below⟩ := kept positive
    rw [List.foldl_cons, List.forall_mem_cons]
    exact ⟨⟨⟨positive', BitVec.le_trans below new⟩, bounds⟩,
      fun some => ⟨positive', BitVec.le_trans below (old some)⟩⟩

theorem foldl_lower_eq_zero : values.foldl lower 0#64 = 0#64 ↔ ∀ v ∈ values.getLast?, v = 0#64 := by
  cases values using List.reverseRecOn with
  | nil => simp
  | append_singleton values adr =>
    rw [List.foldl_append, List.foldl_cons, List.foldl_nil, lower]
    simp only [List.getLast?_append, List.getLast?_singleton, Option.some_or, Option.mem_some,
      forall_eq']
    split <;> bv_omega

end

/-! ## What the bounds come to -/

/-- The least and the greatest of the addresses, zero if there are none. -/
structure IsRange (addresses : List Addr) (top bottom : Addr) : Prop where
  none : addresses = [] → top = 0#64 ∧ bottom = 0#64
  some : addresses ≠ [] → top ∈ addresses ∧ bottom ∈ addresses ∧
    ∀ a ∈ addresses, top ≤ a ∧ a ≤ bottom

/-- The values bring out the range of the addresses: none but zero is outside, the greatest
    address is reached unless it is zero, the least one too, and if that is zero then no
    other value comes after it. -/
structure Covered (addresses values : List Addr) : Prop where
  within : ∀ v ∈ values, v ≠ 0#64 → (∃ a ∈ addresses, a ≤ v) ∧ ∃ a ∈ addresses, v ≤ a
  greatest : ∀ a ∈ addresses, a ≠ 0#64 → ∃ v ∈ values, a ≤ v
  least : 0#64 ∉ addresses → ∀ a ∈ addresses, ∃ v ∈ values, v ≠ 0#64 ∧ v ≤ a
  zero : 0#64 ∈ addresses → ∀ v ∈ values.getLast?, v = 0#64

theorem foldl_lower_option {first : Option Addr} {values : List Addr}
    (nonzero : ∀ v ∈ values, v ≠ 0#64) :
    (∀ v ∈ first.toList ++ values, v ≠ 0#64 →
        (first.toList ++ values).foldl lower 0#64 ≠ 0#64 ∧
          (first.toList ++ values).foldl lower 0#64 ≤ v) ∧
      ((first.toList ++ values).foldl lower 0#64 = 0#64 ∨
        (first.toList ++ values).foldl lower 0#64 ∈ first.toList ++ values) := by
  cases first with
  | none =>
    obtain ⟨bounds, _, taken⟩ := foldl_lower nonzero 0#64
    exact ⟨fun v member _ => bounds v member, taken⟩
  | some adr =>
    obtain ⟨bounds, kept, taken⟩ := foldl_lower nonzero adr
    have first : lower 0#64 adr = adr := if_pos (.inr rfl)
    simp only [Option.toList_some, List.singleton_append, List.foldl_cons, first]
    refine ⟨?_, .inr ?_⟩
    · rw [List.forall_mem_cons]
      exact ⟨kept, fun v member _ => bounds v member⟩
    · rcases taken with same | member
      · rw [same]
        exact List.mem_cons_self
      · exact List.mem_cons_of_mem _ member

/-- What the running bounds of the values are. -/
structure Bounds (addresses values : List Addr) (top bottom : Addr) : Prop where
  highest : ∀ v ∈ values, v ≤ bottom
  reached : bottom = 0#64 ∨ bottom ∈ values
  lowest : 0#64 ∉ addresses → (∀ v ∈ values, v ≠ 0#64 → top ≠ 0#64 ∧ top ≤ v) ∧
    (top = 0#64 ∨ top ∈ values)
  zero : top = 0#64 ↔ ∀ v ∈ values.getLast?, v = 0#64

theorem bounds_foldl {addresses values : List Addr} (first : Option Addr)
    (real : ∀ v ∈ values, v ∈ addresses) :
    Bounds addresses (first.toList ++ values) ((first.toList ++ values).foldl lower 0#64)
      ((first.toList ++ values).foldl raise 0#64) := by
  obtain ⟨_, highest, reached⟩ := foldl_raise (first.toList ++ values) 0#64
  exact ⟨highest, reached,
    fun positive => foldl_lower_option fun v member zero => positive (zero ▸ real v member),
    foldl_lower_eq_zero⟩

namespace Bounds

variable {addresses values : List Addr} {top bottom : Addr}

theorem covered (bounds : Bounds addresses values top bottom)
    (range : IsRange addresses top bottom) : Covered addresses values := by
  have highest := bounds.highest
  by_cases empty : addresses = []
  · obtain ⟨-, rfl⟩ := range.none empty
    subst empty
    refine ⟨fun v member nonzero => ?_, by simp, by simp, by simp⟩
    have := highest v member
    bv_omega
  · obtain ⟨topIn, bottomIn, within⟩ := range.some empty
    refine ⟨fun v member nonzero => ⟨⟨top, topIn, ?_⟩, bottom, bottomIn, highest v member⟩, ?_, ?_, ?_⟩
    · by_cases positive : 0#64 ∉ addresses
      · exact ((bounds.lowest positive).1 v member nonzero).2
      · have := (within _ (not_not.mp positive)).1
        bv_omega
    · intro a member nonzero
      have below := (within a member).2
      have taken := bounds.reached.resolve_left (by bv_omega)
      exact ⟨bottom, taken, below⟩
    · intro positive a member
      have nonzero : top ≠ 0#64 := fun zero => positive (zero ▸ topIn)
      exact ⟨top, (bounds.lowest positive).2.resolve_left nonzero, nonzero, (within a member).1⟩
    · intro member
      have := (within _ member).1
      exact bounds.zero.mp (by bv_omega)

theorem range (bounds : Bounds addresses values top bottom) (covered : Covered addresses values) :
    IsRange addresses top bottom := by
  have highest := bounds.highest
  constructor
  · rintro rfl
    have zeroes : ∀ v ∈ values, v = 0#64 := by
      intro v member
      by_contra nonzero
      obtain ⟨⟨a, absurd_, _⟩, _⟩ := covered.within v member nonzero
      exact List.not_mem_nil absurd_
    refine ⟨bounds.zero.mpr fun v last => zeroes v (List.mem_of_getLast? last), ?_⟩
    rcases bounds.reached with zero | member
    · exact zero
    · exact zeroes bottom member
  · intro some
    have greatest : bottom ∈ addresses ∧ ∀ a ∈ addresses, a ≤ bottom := by
      have above : ∀ a ∈ addresses, a ≤ bottom := by
        intro a member
        by_cases zero : a = 0#64
        · bv_omega
        · obtain ⟨v, shown, below⟩ := covered.greatest a member zero
          exact BitVec.le_trans below (highest v shown)
      refine ⟨?_, above⟩
      by_cases zero : bottom = 0#64
      · obtain ⟨a, member⟩ := List.exists_mem_of_ne_nil addresses some
        have := above a member
        rwa [show bottom = a by bv_omega]
      · have shown := bounds.reached.resolve_left zero
        obtain ⟨_, a, member, reach⟩ := covered.within bottom shown zero
        have := above a member
        rwa [show bottom = a by bv_omega]
    have least : top ∈ addresses ∧ ∀ a ∈ addresses, top ≤ a := by
      by_cases positive : 0#64 ∉ addresses
      · obtain ⟨below, taken⟩ := bounds.lowest positive
        have under : ∀ a ∈ addresses, top ≠ 0#64 ∧ top ≤ a := by
          intro a member
          obtain ⟨v, shown, nonzero, reach⟩ := covered.least positive a member
          exact ⟨(below v shown nonzero).1, BitVec.le_trans (below v shown nonzero).2 reach⟩
        refine ⟨?_, fun a member => (under a member).2⟩
        obtain ⟨a, member⟩ := List.exists_mem_of_ne_nil addresses some
        have nonzero := (under a member).1
        obtain ⟨⟨b, member', reach⟩, _⟩ := covered.within top (taken.resolve_left nonzero) nonzero
        have := (under b member').2
        rwa [show top = b by bv_omega]
      · have zero := not_not.mp positive
        rw [bounds.zero.mpr (covered.zero zero)]
        exact ⟨zero, fun a _ => by bv_omega⟩
    exact ⟨least.1, greatest.1, fun a member => ⟨least.2 a member, greatest.2 a member⟩⟩

theorem isRange_iff (bounds : Bounds addresses values top bottom) :
    IsRange addresses top bottom ↔ Covered addresses values :=
  ⟨bounds.covered, bounds.range⟩

end Bounds

/-! ## Which lines are seen -/

/-- The place after a line that stands after `before`. -/
def stopOf (before : List Line) (line : Line) : Nat :=
  (textOf before).length + (line.body.length + 1)

/-- Of the lines from `start` on, the one that is seen in the 128 bytes from `w` on: the first
    whose tag is not before them, if the newline before it is past the first byte and it ends
    in them. -/
def inView (w : Nat) : Nat → List Line → Option Line
  | _, [] => none
  | start, line :: lines =>
    let stop := start + (line.body.length + 1)
    if line.Tagged ∧ w + 8 ≤ stop then
      if w + 2 ≤ start ∧ stop ≤ w + 128 then some line else none
    else inView w stop lines

section

variable {lines before after : List Line} {line : Line} {w start index : Nat}

theorem occursAt_driverTag : OccursAt driverTag (textOf lines) index ↔
    ∃ before line after, lines = before ++ line :: after ∧ line.Tagged ∧
      index + 8 = stopOf before line := by
  rw [driverTag_eq, occursAt_textOf newline_not_mem_tagName]
  have seven : tagName.length = 7 := by decide
  simp only [Line.Tagged, stopOf, seven]
  constructor
  · rintro ⟨before, line, after, split, suffix, place⟩
    exact ⟨before, line, after, split, suffix, by omega⟩
  · rintro ⟨before, line, after, split, suffix, place⟩
    exact ⟨before, line, after, split, suffix, by omega⟩

theorem length_textOf_cons (line : Line) (lines : List Line) :
    (textOf (line :: lines)).length = line.body.length + 1 + (textOf lines).length := by
  rw [textOf_cons]
  simp
  omega

/-- Either all tags are before `w`, or there is a first one that is not. -/
theorem inView_cases (w start : Nat) (lines : List Line) :
    inView w start lines = none ∧
        (∀ before line after, lines = before ++ line :: after → line.Tagged →
          start + stopOf before line < w + 8) ∨
      ∃ before line after, lines = before ++ line :: after ∧ line.Tagged ∧
        w + 8 ≤ start + stopOf before line ∧
        (∀ front other rest, before = front ++ other :: rest → other.Tagged →
          start + stopOf front other < w + 8) ∧
        inView w start lines =
          if w + 2 ≤ start + (textOf before).length ∧ start + stopOf before line ≤ w + 128 then
            some line
          else none := by
  induction lines generalizing start with
  | nil => exact .inl ⟨rfl, by simp⟩
  | cons line lines ih =>
    rw [inView]
    by_cases here : line.Tagged ∧ w + 8 ≤ start + (line.body.length + 1)
    · refine .inr ⟨[], line, lines, rfl, here.1, ?_, by simp, ?_⟩
      · simpa [stopOf, textOf, unlines] using here.2
      · rw [if_pos here]
        simp [stopOf, textOf, unlines]
    · have passed : line.Tagged → start + stopOf [] line < w + 8 := by
        intro tagged
        have := not_and.mp here tagged
        simpa [stopOf, textOf, unlines] using this
      have later (front : List Line) (other : Line) : start + stopOf (line :: front) other =
          start + (line.body.length + 1) + stopOf front other := by
        rw [stopOf, stopOf, length_textOf_cons]
        omega
      rw [if_neg here]
      rcases ih (start + (line.body.length + 1)) with
        ⟨unseen, before⟩ | ⟨before, found, after, rfl, tagged, reach, earlier, seen⟩
      · refine .inl ⟨unseen, fun front other rest split tagged => ?_⟩
        cases front with
        | nil =>
          obtain ⟨rfl, -⟩ := List.cons.inj split
          exact passed tagged
        | cons first front =>
          obtain ⟨rfl, tail⟩ := List.cons.inj split
          rw [later]
          exact before front other rest tail tagged
      · refine .inr ⟨line :: before, found, after, rfl, tagged, by rwa [later], ?_, ?_⟩
        · intro front other rest split tagged
          cases front with
          | nil =>
            obtain ⟨rfl, -⟩ := List.cons.inj split
            exact passed tagged
          | cons first front =>
            obtain ⟨rfl, tail⟩ := List.cons.inj split
            rw [later]
            exact earlier front other rest tail tagged
        · rw [seen, later, length_textOf_cons, Nat.add_assoc start]

theorem inView_tagged {found : Line} (seen : inView w start lines = some found) :
    found ∈ lines ∧ found.Tagged := by
  rcases inView_cases w start lines with
    ⟨unseen, _⟩ | ⟨before, line, after, rfl, tagged, _, _, value⟩
  · rw [unseen] at seen
    cases seen
  · rw [value] at seen
    split at seen
    · obtain rfl := Option.some.inj seen
      exact ⟨by simp, tagged⟩
    · cases seen

/-- From a place after the last newline up to it, if it is past the first byte. -/
theorem lineStart_eq {buf : List Byte} {start ptr : Nat} (reach : start ≤ ptr)
    (unbroken : ∀ k, start < k → k ≤ ptr → buf[k]? ≠ some newline)
    (stops : start = 0 ∨ buf[start]? = some newline) : lineStart buf ptr = start := by
  induction ptr with
  | zero => exact (Nat.le_zero.mp reach).symm
  | succ ptr ih =>
    rw [lineStart]
    by_cases here : start = ptr + 1
    · rw [if_pos (by rw [← here]; exact stops.resolve_left (by omega)), here]
    · rw [if_neg (unbroken _ (by omega) (Nat.le_refl _))]
      exact ih (by omega) fun k above low => unbroken k above (by omega)

theorem before_of_stopOf_lt {front rest : List Line} {other : Line}
    (same : before ++ line :: after = front ++ other :: rest)
    (first : stopOf front other < stopOf before line) :
    ∃ gap, before = front ++ other :: gap := by
  have apart : before ≠ front := by
    rintro rfl
    obtain ⟨rfl, -⟩ := List.cons.inj (List.append_cancel_left same)
    exact absurd first (Nat.lt_irrefl _)
  rcases List.append_eq_append_iff.mp same with ⟨gap, rfl, tail⟩ | ⟨gap, rfl, tail⟩
  · cases gap with
    | nil => exact absurd (List.append_nil _).symm apart
    | cons found gap =>
      obtain ⟨rfl, -⟩ := List.cons.inj tail
      rw [stopOf, textOf_append, List.length_append, length_textOf_cons, stopOf] at first
      omega
  · cases gap with
    | nil => exact absurd (List.append_nil _) apart
    | cons found gap =>
      obtain ⟨rfl, -⟩ := List.cons.inj tail
      exact ⟨gap, rfl⟩

theorem textOf_inside (low : (textOf before).length ≤ index)
    (high : index < (textOf before).length + line.body.length) :
    (textOf (before ++ line :: after))[index]? ≠ some newline := by
  obtain ⟨k, rfl⟩ := Nat.exists_eq_add_of_le low
  rw [textOf_append, textOf_cons, List.getElem?_append_right low, Nat.add_sub_cancel_left,
    List.getElem?_append_left (by omega)]
  exact fun member => line.newline_not_mem_body (List.mem_of_getElem? member)

theorem occursAt_body : OccursAt (line.body ++ [newline]) (textOf (before ++ line :: after))
    (textOf before).length := by
  have split : textOf (before ++ line :: after) =
      textOf before ++ ((line.body ++ [newline]) ++ textOf after) := by
    rw [textOf_append, textOf_cons]
    simp
  rw [split]
  exact occursAt_between _ _

end

/-! ## What a window after the first does -/

section

variable {buf window : List Byte} {lines : List Line} {w shown : Nat}

theorem tag_shown (view : View 64 buf (buf.take 64 ++ textOf lines) window (64 + w) shown)
    (length : buf.length = 128) {offset : Nat} (found : strnstr window driverTag = some offset) :
    ∃ before line after, lines = before ++ line :: after ∧ line.Tagged ∧
      w + offset + 8 = stopOf before line ∧ offset + 8 ≤ shown := by
  rw [driverTag_eq] at found
  obtain ⟨inside, occurs⟩ := view.firstMatch_shown (by decide) newline_not_mem_tagName
    (stream_ends view length) (by omega) found
  rw [← driverTag_eq, Nat.add_assoc, occursAt_behind length, occursAt_driverTag] at occurs
  obtain ⟨before, line, after, split, tagged, place⟩ := occurs
  exact ⟨before, line, after, split, tagged, place, inside⟩

theorem getElem?_window
    (view : View 64 buf (buf.take 64 ++ textOf lines) window (64 + w) shown)
    (length : buf.length = 128) {k : Nat} (inside : k < shown) :
    window[k]? = (textOf lines)[w + k]? := by
  have half := length_lowerHalf length
  rw [view.shows k inside, List.getElem?_append_right (by omega), half]
  congr 1
  omega

section

variable {before after : List Line} {line : Line}

/-- The first tag that is not before the window is found if its line ends in the window. -/
theorem tag_found
    (view : View 64 buf (buf.take 64 ++ textOf (before ++ line :: after)) window (64 + w) shown)
    (length : buf.length = 128) (tagged : line.Tagged) (reach : w + 8 ≤ stopOf before line)
    (earlier : ∀ front other rest, before = front ++ other :: rest → other.Tagged →
      stopOf front other < w + 8) :
    (∀ offset, strnstr window driverTag = some offset →
        stopOf before line ≤ w + offset + 8 ∧ offset + 8 ≤ shown) ∧
      (stopOf before line ≤ w + 128 → ∃ offset, stopOf before line = w + 8 + offset ∧
        offset + 8 ≤ shown ∧ strnstr window driverTag = some offset) := by
  have half := length_lowerHalf length
  have first : ∀ offset, strnstr window driverTag = some offset →
      stopOf before line ≤ w + offset + 8 ∧ offset + 8 ≤ shown := by
    intro offset found
    obtain ⟨front, other, rest, split, tagged', place, inside⟩ := tag_shown view length found
    refine ⟨?_, inside⟩
    by_contra early
    obtain ⟨gap, rfl⟩ := before_of_stopOf_lt split (by omega)
    have := earlier front other gap rfl tagged'
    omega
  refine ⟨first, fun whole => ?_⟩
  obtain ⟨offset, place⟩ := Nat.exists_eq_add_of_le reach
  have inText : stopOf before line ≤ (textOf (before ++ line :: after)).length := by
    rw [textOf_append, List.length_append, length_textOf_cons, stopOf]
    omega
  have inside : offset + 8 ≤ shown := by
    have fits := view.fits
    by_cases full : shown = 128
    · omega
    · have ends := view.ends (by omega)
      rw [List.length_append, half] at ends
      omega
  have occurs : OccursAt driverTag window offset := by
    rw [view.shows.occursAt (by rwa [driverTag_length]), Nat.add_assoc, occursAt_behind length,
      occursAt_driverTag]
    exact ⟨before, line, after, rfl, tagged, by omega⟩
  obtain ⟨found, low, match_⟩ := exists_firstMatch occurs
  have := first found match_
  exact ⟨offset, place, inside, by rwa [show offset = found by omega]⟩

/-- From the tag of a line the search backwards comes to the newline before the line, if that
    is in the window. -/
theorem line_found
    (view : View 64 buf (buf.take 64 ++ textOf (before ++ line :: after)) window (64 + w) shown)
    (length : buf.length = 128) {offset : Nat} (place : stopOf before line = w + 8 + offset)
    (inside : offset + 8 ≤ shown) :
    if w + 2 ≤ (textOf before).length then
      lineStart window offset ≠ 0 ∧
        sscanf (window.drop (lineStart window offset + 1)) = some line.address
    else lineStart window offset = 0 := by
  have long := line.body_long
  have unbroken : ∀ k, (textOf before).length ≤ w + k → k ≤ offset →
      window[k]? ≠ some newline := by
    intro k low high
    rw [getElem?_window view length (by omega)]
    exact textOf_inside low (by rw [stopOf] at place; omega)
  rw [stopOf] at place
  split
  · rename_i high
    obtain ⟨ptr, at_⟩ := Nat.exists_eq_add_of_le high
    have stops : window[ptr + 1]? = some newline := by
      have some : before ≠ [] := by
        rintro rfl
        simp [textOf, unlines] at high
      rw [getElem?_window view length (by omega), textOf_append,
        List.getElem?_append_left (by omega), ← textOf_last some, at_]
      congr 1
      omega
    have begins : lineStart window offset = ptr + 1 :=
      lineStart_eq (by omega) (fun k above low => unbroken k (by omega) low) (.inr stops)
    have record : OccursAt (line.body ++ [newline]) window (ptr + 1 + 1) := by
      rw [view.shows.occursAt (by simp; omega), Nat.add_assoc, occursAt_behind length,
        show w + (ptr + 1 + 1) = (textOf before).length by omega]
      exact occursAt_body
    obtain ⟨rest, tail⟩ := record.drop_eq
    rw [begins, tail, Line.body]
    simp only [List.cons_append, List.append_assoc]
    exact ⟨by omega, line.sscanf_digits _⟩
  · exact lineStart_eq (by omega) (fun k above low => unbroken k (by omega) low) (.inl rfl)

end

/-- A window after the first widens the range to the line that is seen in it, if there is one. -/
theorem driverRange_view (view : View 64 buf (buf.take 64 ++ textOf lines) window (64 + w) shown)
    (length : buf.length = 128) (s : Scan) :
    driverRange window s = (inView w 0 lines).elim s
      fun line => widen line.address { s with adr := line.address } := by
  have fits := view.fits
  rcases inView_cases w 0 lines with
    ⟨unseen, early⟩ | ⟨before, line, after, rfl, tagged, reach, earlier, seen⟩
  · rw [unseen, Option.elim_none]
    cases found : strnstr window driverTag with
    | none => rw [driverRange, found]
    | some offset =>
      obtain ⟨front, other, rest, split, tagged, place, _⟩ := tag_shown view length found
      have := early front other rest split tagged
      omega
  · simp only [Nat.zero_add] at reach seen earlier
    obtain ⟨first, whole⟩ := tag_found view length tagged reach earlier
    by_cases ends : stopOf before line ≤ w + 128
    · obtain ⟨offset, place, inside, found⟩ := whole ends
      have begins := line_found view length place inside
      rw [seen, driverRange, found]
      split at begins
      · rename_i high
        rw [if_pos ⟨high, ends⟩, Option.elim_some]
        simp only [begins.2, Option.getD_some]
        exact if_pos begins.1
      · rename_i low
        rw [if_neg (fun both => low both.1), Option.elim_none]
        exact if_neg (not_not.mpr begins)
    · rw [seen, if_neg (fun both => ends both.2), Option.elim_none]
      cases found : strnstr window driverTag with
      | none => rw [driverRange, found]
      | some offset =>
        have := first offset found
        omega

end

/-! ## The run -/

/-- What one window widens the range to, by what is in it alone. -/
def sighted (adr : Addr) (window : List Byte) : Option Addr :=
  (strnstr window driverTag).bind fun offset =>
    if lineStart window offset = 0 then none
    else some ((sscanf (window.drop (lineStart window offset + 1))).getD adr)

/-- The numbers that the range is widened to: first what the first piece shows behind what `buf`
    held, then the lines in view with every two pieces. -/
def shownNumbers (lines : List Line) (buf : List Byte) (adr : Addr) : List (List Byte) → List Addr
  | [] => []
  | piece :: pieces =>
    (sighted adr (readInto 64 buf piece)).toList ++
      ((List.range pieces.length).filterMap fun k => inView (64 * k) 0 lines).map Line.address

def taggedAddresses (lines : List Line) : List Addr :=
  (lines.filter fun line => line.Tagged).map Line.address

def Scan.range (s : Scan) : Addr × Addr := (s.driverTop, s.driverBottom)

def widenRange (range : Addr × Addr) (adr : Addr) : Addr × Addr :=
  (lower range.1 adr, raise range.2 adr)

theorem foldl_widenRange (values : List Addr) (range : Addr × Addr) :
    values.foldl widenRange range = (values.foldl lower range.1, values.foldl raise range.2) := by
  induction values generalizing range with
  | nil => rfl
  | cons adr values ih =>
    rw [List.foldl_cons, ih]
    rfl

section

variable {buf window : List Byte} {lines : List Line} {pieces : List (List Byte)} {w shown : Nat}

theorem range_widen (adr : Addr) (s : Scan) : (widen adr s).range = widenRange s.range adr := by
  rw [widen_eq]
  rfl

theorem driverRange_eq (window : List Byte) (s : Scan) :
    (driverRange window s).range = (sighted s.adr window).elim s.range (widenRange s.range) := by
  unfold driverRange sighted
  cases strnstr window driverTag with
  | none => rfl
  | some offset =>
    by_cases here : lineStart window offset = 0
    · simp [here]
    · simp [here, range_widen]
      rfl

theorem range_lookUp (below : Fin 19 → Byte) (buf : List Byte) (s : Scan) (l : Lookup) :
    (lookUp below buf s l).range = s.range := by
  unfold lookUp
  split
  · rfl
  · split <;> rfl

theorem range_examine (below : Fin 19 → Byte) (window : List Byte) (s : Scan) :
    (examine below s window).range = (driverRange window s).range := by
  have listed (ls : List Lookup) (s : Scan) :
      (ls.foldl (lookUp below window) s).range = s.range := by
    induction ls generalizing s with
    | nil => rfl
    | cons l ls ih => rw [List.foldl_cons, ih, range_lookUp]
  rw [examine, lookUpBase]
  split
  · exact (range_lookUp below window _ baseLookup).trans (listed _ _)
  · exact listed _ _

/-- A later window widens the range to the line in view with it. -/
theorem range_examine_view (below : Fin 19 → Byte)
    (view : View 64 buf (buf.take 64 ++ textOf lines) window (64 + w) shown)
    (length : buf.length = 128) (s : Scan) :
    (examine below s window).range =
      ((inView w 0 lines).map Line.address).elim s.range (widenRange s.range) := by
  rw [range_examine, driverRange_view view length]
  cases inView w 0 lines with
  | none => rfl
  | some line => exact range_widen line.address _

theorem foldl_elim {values : Nat → Option Addr} (places : List Nat) (range : Addr × Addr) :
    places.foldl (fun range k => (values k).elim range (widenRange range)) range =
      (places.filterMap values).foldl widenRange range := by
  induction places generalizing range with
  | nil => rfl
  | cons k places ih =>
    rw [List.foldl_cons, ih, List.filterMap_cons]
    cases values k <;> rfl

theorem range_windows (below : Fin 19 → Byte) (length : buf.length = 128)
    (cut : InPieces 64 (textOf lines) pieces) (s : Scan) : ((windows 64 buf pieces).foldl (examine below) s).range =
      (shownNumbers lines buf s.adr pieces).foldl widenRange s.range := by
  have views := views_windows (by decide) length cut
  cases pieces with
  | nil => rfl
  | cons piece pieces =>
    rw [windows] at views ⊢
    have later : ∀ k window,
        (windows 64 (carryOver 64 (readInto 64 buf piece)) pieces)[k]? = some window →
        ∀ s, (examine below s window).range =
          ((inView (64 * k) 0 lines).map Line.address).elim s.range (widenRange s.range) := by
      intro k window here s
      obtain ⟨shown, view⟩ := views.getElem? (k := k + 1) here
      rw [Nat.zero_add, Nat.mul_succ, Nat.add_comm] at view
      exact range_examine_view below view length s
    have rest := foldl_eq_foldl_range (g := fun range k =>
      ((inView (64 * k) 0 lines).map Line.address).elim range (widenRange range)) Scan.range _ later
    rw [List.foldl_cons, rest, length_windows, foldl_elim, range_examine, driverRange_eq,
      shownNumbers, List.foldl_append, List.map_filterMap]
    cases sighted s.adr (readInto 64 buf piece) <;> rfl

end

/-! ## When the range is the driver's -/

/-- The range is that of the tagged lines if and only if the numbers shown cover it: none but
    zero is outside (only what `buf` held at first can show such a one), the greatest
    address is shown unless it is zero, and the least one is shown, or if it is zero then
    nothing else is shown after it. -/
theorem driver_range_iff (lines : List Line) {pieces : List (List Byte)}
    (cut : InPieces 64 (textOf lines) pieces) {fileRead : BitVec 64 → List Byte}
    (reads : ReadsAs fileRead 0#32 pieces) (below : Fin 19 → Byte) {buf : List Byte}
    (length : buf.length = 128) (adr : Addr) (vars : Var → Addr) :
    ∃ s, (∀ fuel, pieces.length < fuel → getTableEntry (some fileRead) below buf adr fuel
        { vars, driverTop := 0#64, driverBottom := 0#64 } = some (0, s)) ∧
      (IsRange (taggedAddresses lines) s.driverTop s.driverBottom ↔
        Covered (taggedAddresses lines) (shownNumbers lines buf adr pieces)) := by
  refine ⟨_, fun fuel enough => getTableEntry_eq_foldl cut reads enough buf adr _, ?_⟩
  have range := range_windows below length cut
    { Globals.clear { vars, driverTop := 0#64, driverBottom := 0#64 } with adr, early := [] }
  rw [foldl_widenRange] at range
  obtain ⟨top, bottom⟩ := Prod.mk.inj range
  rw [top, bottom]
  cases pieces with
  | nil => exact (bounds_foldl none (by simp)).isRange_iff
  | cons piece pieces =>
    refine (bounds_foldl _ fun v member => ?_).isRange_iff
    obtain ⟨line, seen, rfl⟩ := List.mem_map.mp member
    obtain ⟨k, _, inView⟩ := List.mem_filterMap.mp seen
    obtain ⟨inLines, tagged⟩ := inView_tagged inView
    exact List.mem_map.mpr ⟨line, List.mem_filter.mpr ⟨inLines, by simpa using tagged⟩, rfl⟩

/-- Lines of the driver under the names `a`, `b` and so on, of 29 bytes, and one of the kernel. -/
def driverLine (digit name : Byte) (hex : isxdigit digit) (unbroken : ¬ isblank name) : Line where
  digits := List.replicate 15 0x66#8 ++ [digit]
  type := 0x74#8
  name := [name]
  tag := some (ascii "ixgbe")
  sixteen := by simp
  hex := by
    simp only [List.forall_mem_append, List.forall_mem_singleton]
    exact ⟨fun c member => List.eq_of_mem_replicate member ▸ by decide, hex⟩
  letter := by decide
  unbroken := by simpa using unbroken
  oneLine := by decide

def kernelLine : Line where
  digits := List.replicate 16 0x66#8
  type := 0x54#8
  name := [0x5f#8, 0x5f#8]
  tag := none
  sixteen := by simp
  hex := by decide
  letter := by decide
  unbroken := by decide
  oneLine := oneLine_none

def sampleDriver : List Line :=
  [kernelLine, driverLine 0x31#8 0x61#8 (by decide) (by decide),
    driverLine 0x32#8 0x62#8 (by decide) (by decide),
    driverLine 0x33#8 0x63#8 (by decide) (by decide)]

/-- The second and the third line of the driver are never the first in two pieces. -/
theorem lines_missed :
    (getTableEntry (some (wholeFile (textOf sampleDriver))) (fun _ => 0#8) (List.replicate 128 0#8)
        0#64 3 { vars := fun _ => 0#64, driverTop := 0#64, driverBottom := 0#64 }).map
      (fun result => (result.1, result.2.range)) =
        some (0, 0xfffffffffffffff1#64, 0xfffffffffffffff1#64) ∧
      ¬ IsRange (taggedAddresses sampleDriver) 0xfffffffffffffff1#64 0xfffffffffffffff1#64 := by
  constructor
  · decide
  · intro range
    have within := (range.some (by decide)).2.2 0xfffffffffffffff3#64 (by decide)
    exact absurd within.2 (by decide)

/-- Two lines of the driver with 44 bytes between them. -/
def sampleApart : List Line :=
  [kernelLine, driverLine 0x31#8 0x61#8 (by decide) (by decide), kernelLine, kernelLine,
    driverLine 0x33#8 0x63#8 (by decide) (by decide), kernelLine]

theorem sampleApart_cut : InPieces 64 (textOf sampleApart) [(textOf sampleApart).take 64,
    ((textOf sampleApart).drop 64).take 64, (textOf sampleApart).drop 128] := by
  have split : (textOf sampleApart).take 64 ++
      (((textOf sampleApart).drop 64).take 64 ++ (textOf sampleApart).drop 128) =
        textOf sampleApart := by
    rw [show 128 = 64 + 64 from rfl, ← List.drop_drop, List.take_append_drop, List.take_append_drop]
  refine (congrArg (fun text => InPieces 64 text _) split).mp ?_
  exact .cons (by decide) (.cons (by decide) (.last (by decide) (by decide)))

theorem driver_range_sample :
    ∃ s, (∀ fuel > 3, getTableEntry (some (wholeFile (textOf sampleApart))) (fun _ => 0#8)
        (List.replicate 128 0#8) 0#64 fuel
        { vars := fun _ => 0#64, driverTop := 0#64, driverBottom := 0#64 } = some (0, s)) ∧
      IsRange [0xfffffffffffffff1#64, 0xfffffffffffffff3#64] s.driverTop s.driverBottom := by
  have reads : ReadsAs (wholeFile (textOf sampleApart)) 0#32 [(textOf sampleApart).take 64,
      ((textOf sampleApart).drop 64).take 64, (textOf sampleApart).drop 128] :=
    ⟨by decide, by decide, by decide, show wholeFile _ _ = [] by decide⟩
  obtain ⟨s, ends, exact_⟩ := driver_range_iff sampleApart sampleApart_cut reads (fun _ => 0#8)
    (List.length_replicate (a := 0#8)) 0#64 fun _ => 0#64
  have tagged : taggedAddresses sampleApart = [0xfffffffffffffff1#64, 0xfffffffffffffff3#64] := by
    decide
  have shown : shownNumbers sampleApart (List.replicate 128 0#8) 0#64 [(textOf sampleApart).take 64,
      ((textOf sampleApart).drop 64).take 64, (textOf sampleApart).drop 128] =
        [0xfffffffffffffff1#64, 0xfffffffffffffff1#64, 0xfffffffffffffff3#64] := by decide
  rw [tagged, shown] at exact_
  refine ⟨s, ends, exact_.mpr ⟨?_, ?_, ?_, ?_⟩⟩ <;> simp

end TestPrograms.Genpipe
