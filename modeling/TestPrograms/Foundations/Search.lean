import Mathlib.Data.List.Count
import Mathlib.Data.List.Infix
import TestPrograms.Foundations.Lines

/-! # Searching a text through a window

A text is read in pieces into the upper half of a buffer, and after each piece the upper
half is copied to the lower one.  What a search of the buffer finds is read back as an
occurrence in the text: a pattern whose only terminator is its last element does not run
over the end of the text into what an earlier piece left behind.
-/

namespace TestPrograms.Foundations

variable {α : Type} {pattern text window : List α} {index start shown : Nat}

/-- `pattern` stands in `text` from `index` on. -/
def OccursAt (pattern text : List α) (index : Nat) : Prop := pattern <+: text.drop index

def firstMatch [DecidableEq α] (pattern text : List α) : Option Nat :=
  text.tails.findIdx? pattern.isPrefixOf

/-! ## An element that is there once -/

/-- What holds of one element only splits the list in one way. -/
theorem split_unique {p : α → Prop} {before after before' after' : List α} {x y : α}
    (noneBefore : ∀ z ∈ before, ¬ p z) (noneAfter : ∀ z ∈ after, ¬ p z) (holds : p y)
    (same : before ++ x :: after = before' ++ y :: after') : before' = before := by
  rcases List.append_eq_append_iff.mp same with ⟨gap, rfl, rest⟩ | ⟨gap, rfl, rest⟩
  · cases gap with
    | nil => rw [List.append_nil]
    | cons first gap =>
      obtain ⟨-, rfl⟩ := List.cons.inj rest
      exact absurd holds (noneAfter y (List.mem_append_right gap List.mem_cons_self))
  · cases gap with
    | nil => rw [List.append_nil]
    | cons first gap =>
      obtain ⟨rfl, -⟩ := List.cons.inj rest
      exact absurd holds (noneBefore y (List.mem_append_right before' List.mem_cons_self))

/-- An element of which there is one at most has none before it and none after it. -/
theorem exists_split_of_countP {p : α → Prop} [DecidablePred p] {l : List α} {x : α}
    (once : l.countP p ≤ 1) (member : x ∈ l) (holds : p x) :
    ∃ before after, l = before ++ x :: after ∧ (∀ z ∈ before, ¬ p z) ∧ ∀ z ∈ after, ¬ p z := by
  obtain ⟨before, after, rfl⟩ := List.append_of_mem member
  rw [List.countP_append, List.countP_cons_of_pos (by simpa using holds)] at once
  have none : ∀ l : List α, l.countP p = 0 → ∀ z ∈ l, ¬ p z := fun l zero => by
    simpa using List.countP_eq_zero.mp zero
  exact ⟨before, after, rfl, none before (by omega), none after (by omega)⟩
/-! ## Occurrences -/

theorem occursAt_iff : OccursAt pattern text index ↔
    ∀ k, (inside : k < pattern.length) → text[index + k]? = some pattern[k] := by
  simp only [OccursAt, List.prefix_iff_getElem?, List.getElem?_drop]

theorem OccursAt.fits (occurs : OccursAt pattern text index) (some : pattern ≠ []) :
    index + pattern.length ≤ text.length := by
  have fits := occurs.length_le
  have := List.length_pos_iff.mpr some
  rw [List.length_drop] at fits
  omega

theorem OccursAt.drop_eq (occurs : OccursAt pattern text index) :
    ∃ rest, text.drop index = pattern ++ rest := by
  obtain ⟨rest, same⟩ := occurs
  exact ⟨rest, same.symm⟩

theorem occursAt_append_right (before : List α) :
    OccursAt pattern (before ++ text) (before.length + index) ↔ OccursAt pattern text index := by
  rw [OccursAt, OccursAt, List.drop_append, List.drop_of_length_le (by omega), List.nil_append,
    Nat.add_sub_cancel_left]

theorem occursAt_between (before after : List α) :
    OccursAt pattern (before ++ (pattern ++ after)) before.length := by
  rw [OccursAt, List.drop_left]
  exact List.prefix_append _ _

section

variable [DecidableEq α]

theorem firstMatch_eq_some_iff : firstMatch pattern text = some index ↔
    OccursAt pattern text index ∧ ∀ k < index, ¬ OccursAt pattern text k := by
  simp only [firstMatch, List.findIdx?_eq_some_iff_getElem, List.getElem_tails, List.length_tails,
    List.isPrefixOf_iff_prefix]
  constructor
  · rintro ⟨_, occurs, first⟩
    exact ⟨occurs, first⟩
  · rintro ⟨occurs, first⟩
    refine ⟨?_, occurs, first⟩
    -- past the end all places are alike, and the end is one before
    by_contra past
    refine first text.length (by omega) ?_
    rw [OccursAt, List.drop_of_length_le (by omega)] at occurs
    rwa [OccursAt, List.drop_length]

theorem firstMatch_eq_none_iff : firstMatch pattern text = none ↔ ∀ k, ¬ OccursAt pattern text k := by
  rw [firstMatch, List.findIdx?_eq_none_iff]
  constructor
  · intro never k occurs
    have member : text.drop k ∈ text.tails := (List.mem_tails _ _).mpr (List.drop_suffix k text)
    exact absurd (List.isPrefixOf_iff_prefix.mpr occurs) (by simp [never _ member])
  · intro never tail member
    obtain ⟨k, rfl⟩ : ∃ k, tail = text.drop k :=
      ⟨_, List.suffix_iff_eq_drop.mp ((List.mem_tails _ _).mp member)⟩
    cases match_ : pattern.isPrefixOf (text.drop k) with
    | false => rfl
    | true => exact absurd (List.isPrefixOf_iff_prefix.mp match_) (never k)

theorem exists_firstMatch (occurs : OccursAt pattern text index) :
    ∃ first ≤ index, firstMatch pattern text = some first := by
  cases found : firstMatch pattern text with
  | none => exact absurd occurs (firstMatch_eq_none_iff.mp found index)
  | some first =>
    refine ⟨first, ?_, rfl⟩
    by_contra late
    exact (firstMatch_eq_some_iff.mp found).2 index (by omega) occurs

end

/-! ## Through a window -/

/-- The first `shown` places of `window` are those of `text` from `start` on. -/
def Shows (text window : List α) (start shown : Nat) : Prop :=
  ∀ k < shown, window[k]? = text[start + k]?

theorem Shows.occursAt (shows : Shows text window start shown)
    (inside : index + pattern.length ≤ shown) :
    OccursAt pattern window index ↔ OccursAt pattern text (start + index) := by
  rw [occursAt_iff, occursAt_iff]
  refine forall₂_congr fun k bound => ?_
  rw [shows (index + k) (by omega), Nat.add_assoc]

/-- A pattern that ends at its only terminator does not cross another one. -/
theorem OccursAt.not_across {terminator : α} {front : List α} {stop : Nat}
    (occurs : OccursAt (front ++ [terminator]) window index) (unbroken : terminator ∉ front)
    (stops : window[stop]? = some terminator) (reaches : index ≤ stop) :
    index + front.length ≤ stop := by
  by_contra across
  have here := occursAt_iff.mp occurs (stop - index) (by simp; omega)
  rw [Nat.add_sub_cancel' reaches, stops, List.getElem_append_left (by omega)] at here
  exact unbroken (Option.some.inj here ▸ List.getElem_mem _)

/-! ## In a text of lines -/

/-- What ends with a terminator stands in a text of lines where a line ends with it. -/
theorem occursAt_unlines {terminator : α} {front : List α} {lines : List (List α)}
    (unbroken : terminator ∉ front) (whole : ∀ line ∈ lines, terminator ∉ line) :
    OccursAt (front ++ [terminator]) (unlines terminator lines) index ↔
      ∃ before line after, lines = before ++ line :: after ∧ front <:+ line ∧
        index + front.length = (unlines terminator before).length + line.length := by
  constructor
  · intro occurs
    induction lines generalizing index with
    | nil =>
      have fits := occurs.fits (by simp)
      simp [unlines] at fits
    | cons line lines ih =>
      rw [unlines_cons] at occurs
      by_cases reaches : index ≤ line.length
      · have stops : (line ++ terminator :: unlines terminator lines)[line.length]? =
            some terminator := by simp
        have inside := occurs.not_across unbroken stops reaches
        have last := occursAt_iff.mp occurs front.length (by simp)
        have ends : index + front.length = line.length := by
          by_contra early
          rw [List.getElem_concat_length rfl, List.getElem?_append_left (by omega)] at last
          exact whole line List.mem_cons_self (List.mem_of_getElem? last)
        refine ⟨[], line, lines, rfl, ?_, by simpa [unlines] using ends⟩
        rw [OccursAt, List.drop_append_of_le_length reaches] at occurs
        obtain ⟨rest, same⟩ := occurs
        rw [List.append_assoc] at same
        have front_eq : front = line.drop index :=
          (List.append_inj same (by rw [List.length_drop]; omega)).1
        exact front_eq ▸ List.drop_suffix index line
      · obtain ⟨j, rfl⟩ := Nat.exists_eq_add_of_le (show (line ++ [terminator]).length ≤ index by
          simp; omega)
        rw [List.append_cons line, occursAt_append_right] at occurs
        obtain ⟨before, found, after, split, suffix, place⟩ :=
          ih (fun l member => whole l (List.mem_cons_of_mem _ member)) occurs
        refine ⟨line :: before, found, after, by rw [split, List.cons_append], suffix, ?_⟩
        rw [unlines_cons]
        simp at place ⊢
        omega
  · rintro ⟨before, line, after, rfl, ⟨pre, rfl⟩, place⟩
    have split : unlines terminator (before ++ (pre ++ front) :: after) =
        (unlines terminator before ++ pre) ++
          ((front ++ [terminator]) ++ unlines terminator after) := by
      simp [unlines_append, unlines_cons]
    have length : index = (unlines terminator before ++ pre).length := by
      simp at place ⊢
      omega
    rw [split, length]
    exact occursAt_between _ _

/-! ## Reading in pieces -/

/-- `text` in pieces of `size`, of which only the last may be shorter. -/
inductive InPieces (size : Nat) : List α → List (List α) → Prop
  | nil : InPieces size [] []
  | last {piece : List α} : 0 < piece.length → piece.length ≤ size → InPieces size piece [piece]
  | cons {piece text : List α} {pieces : List (List α)} : piece.length = size →
      InPieces size text pieces → InPieces size (piece ++ text) (piece :: pieces)

theorem InPieces.filled {size : Nat} {pieces : List (List α)} (cut : InPieces size text pieces)
    (positive : 0 < size) : ∀ piece ∈ pieces, piece ≠ [] := by
  induction cut with
  | nil => simp
  | last some _ => simpa using List.length_pos_iff.mp some
  | cons full _ ih =>
    rw [List.forall_mem_cons]
    exact ⟨List.length_pos_iff.mp (by omega), ih⟩

variable {half : Nat} {buffer piece : List α} {pieces : List (List α)}

def readInto (half : Nat) (buffer piece : List α) : List α :=
  buffer.take half ++ piece ++ buffer.drop (half + piece.length)

def carryOver (half : Nat) (buffer : List α) : List α := buffer.drop half ++ buffer.drop half

/-- The buffer as it stands after each piece is read. -/
def windows (half : Nat) : List α → List (List α) → List (List α)
  | _, [] => []
  | buffer, piece :: pieces =>
    let window := readInto half buffer piece
    window :: windows half (carryOver half window) pieces

/-- One window on `text`.  What it does not show of the text is still there from the half
    before, or in the first window from `buffer`. -/
structure View (half : Nat) (buffer text window : List α) (start shown : Nat) : Prop where
  length : window.length = 2 * half
  shows : Shows text window start shown
  more : half < shown
  fits : shown ≤ 2 * half
  inText : start + shown ≤ text.length
  ends : shown < 2 * half → start + shown = text.length
  stale : ∀ k, shown ≤ k → k < 2 * half →
    window[k]? = if start = 0 then buffer[k]? else window[k - half]?

theorem readInto_length (length : buffer.length = 2 * half) (fits : piece.length ≤ half) :
    (readInto half buffer piece).length = 2 * half := by
  simp [readInto, length]
  omega

theorem readInto_low {k : Nat} (length : buffer.length = 2 * half) (low : k < half) :
    (readInto half buffer piece)[k]? = buffer[k]? := by
  rw [readInto, List.append_assoc, List.getElem?_append_left (by simp; omega),
    List.getElem?_take_of_lt low]

theorem readInto_piece {k : Nat} (length : buffer.length = 2 * half) (inside : k < piece.length) :
    (readInto half buffer piece)[half + k]? = piece[k]? := by
  have lower : (buffer.take half).length = half := by simp; omega
  rw [readInto, List.getElem?_append_left (by simp; omega),
    List.getElem?_append_right (by omega), lower, Nat.add_sub_cancel_left]

theorem readInto_high {k : Nat} (length : buffer.length = 2 * half)
    (past : half + piece.length ≤ k) : (readInto half buffer piece)[k]? = buffer[k]? := by
  have lower : (buffer.take half ++ piece).length = half + piece.length := by simp; omega
  rw [readInto, List.getElem?_append_right (by omega), lower, List.getElem?_drop,
    Nat.add_sub_cancel' past]

theorem carryOver_low {k : Nat} (length : buffer.length = 2 * half) (low : k < half) :
    (carryOver half buffer)[k]? = buffer[half + k]? := by
  rw [carryOver, List.getElem?_append_left (by simp; omega), List.getElem?_drop]

theorem carryOver_high {k : Nat} (length : buffer.length = 2 * half) (high : half ≤ k) :
    (carryOver half buffer)[k]? = buffer[k]? := by
  rw [carryOver, List.getElem?_append_right (by simp; omega), List.getElem?_drop]
  congr 1
  simp
  omega

theorem carryOver_length (length : buffer.length = 2 * half) :
    (carryOver half buffer).length = 2 * half := by
  simp [carryOver, length]
  omega

theorem View.getElem?_last (view : View half buffer text window start shown) (some : 0 < half) :
    window[shown - 1]? = text[start + shown - 1]? := by
  have more := view.more
  rw [view.shows (shown - 1) (by omega), Nat.add_sub_assoc (by omega)]

/-- What is found first in a window stands in the text: it does not run over the end of the
    text, and what is left of the half before was there to be found half a window earlier. -/
theorem View.firstMatch_shown [DecidableEq α] {terminator : α} {front : List α}
    (view : View half buffer text window start shown) (some : 0 < half)
    (unbroken : terminator ∉ front) (ends : text[text.length - 1]? = .some terminator)
    (clear : start = 0 → ¬ OccursAt (front ++ [terminator]) buffer index)
    (found : firstMatch (front ++ [terminator]) window = .some index) :
    index + (front ++ [terminator]).length ≤ shown ∧
      OccursAt (front ++ [terminator]) text (start + index) := by
  obtain ⟨occurs, first⟩ := firstMatch_eq_some_iff.mp found
  have fits := occurs.fits (by simp)
  rw [view.length] at fits
  have more := view.more
  have within : index < shown := by
    by_contra past
    have again := occursAt_iff.mp occurs
    by_cases zero : start = 0
    · refine clear zero (occursAt_iff.mpr fun k inside => ?_)
      have stale := view.stale (index + k) (by omega) (by omega)
      rw [if_pos zero] at stale
      rw [← stale, again k inside]
    · refine first (index - half) (by omega) (occursAt_iff.mpr fun k inside => ?_)
      have stale := view.stale (index + k) (by omega) (by omega)
      rw [if_neg zero] at stale
      rw [show index - half + k = index + k - half by omega, ← stale, again k inside]
  have inside : index + (front ++ [terminator]).length ≤ shown := by
    by_cases full : shown = 2 * half
    · omega
    · have stops : window[shown - 1]? = .some terminator := by
        rw [view.getElem?_last some, view.ends (by have := view.fits; omega), ends]
      have := occurs.not_across unbroken stops (by omega)
      rw [List.length_append, List.length_singleton]
      omega
  exact ⟨inside, (view.shows.occursAt inside).mp occurs⟩

/-- Between two pieces: the lower half shows the text, the upper half repeats it. -/
structure Carried (half : Nat) (buffer text current : List α) (start : Nat) : Prop where
  length : current.length = 2 * half
  shows : Shows text current start half
  first : start = 0 → current = buffer
  repeats : start ≠ 0 → ∀ k < half, current[half + k]? = current[k]?

theorem Carried.view {current : List α} (carried : Carried half buffer text current start)
    (next : piece <+: text.drop (start + half)) (some : 0 < piece.length)
    (fits : piece.length ≤ half)
    (ends : piece.length < half → start + half + piece.length = text.length) :
    View half buffer text (readInto half current piece) start (half + piece.length) := by
  have bound := next.length_le
  rw [List.length_drop] at bound
  refine ⟨readInto_length carried.length fits, ?_, by omega, by omega, by omega,
    fun short => by rw [← ends (by omega), Nat.add_assoc], ?_⟩
  · intro k inside
    by_cases low : k < half
    · rw [readInto_low carried.length low, carried.shows k low]
    · obtain ⟨j, rfl⟩ := Nat.exists_eq_add_of_le (Nat.le_of_not_lt low)
      have within : j < piece.length := by omega
      rw [readInto_piece carried.length within, List.getElem?_eq_getElem within, ← Nat.add_assoc,
        ← List.getElem?_drop]
      exact (List.prefix_iff_getElem?.mp next j within).symm
  · intro k past inside
    rw [readInto_high carried.length past]
    split
    · rename_i zero
      rw [carried.first zero]
    · rename_i positive
      obtain ⟨j, rfl⟩ := Nat.exists_eq_add_of_le (show half ≤ k by omega)
      rw [Nat.add_sub_cancel_left, readInto_low carried.length (by omega),
        carried.repeats positive j (by omega)]

theorem View.carried (view : View half buffer text window start (2 * half)) (some : 0 < half) :
    Carried half buffer text (carryOver half window) (start + half) := by
  have length := view.length
  refine ⟨carryOver_length length, ?_, by omega, ?_⟩
  · intro k low
    rw [carryOver_low length low, view.shows (half + k) (by omega), Nat.add_assoc]
  · intro _ k low
    rw [carryOver_high length (by omega), carryOver_low length low]

/-- The windows from `start` on, to the end of the text. -/
inductive Views (half : Nat) (buffer text : List α) : Nat → List (List α) → Prop
  | done {start : Nat} : start + half = text.length → Views half buffer text start []
  | last {start shown : Nat} {window : List α} : View half buffer text window start shown →
      start + shown = text.length → Views half buffer text start [window]
  | next {start : Nat} {window : List α} {rest : List (List α)} :
      View half buffer text window start (2 * half) →
      Views half buffer text (start + half) rest → Views half buffer text start (window :: rest)

theorem Carried.views {current rest : List α} (some : 0 < half) (cut : InPieces half rest pieces)
    (carried : Carried half buffer text current start)
    (left : text.drop (start + half) = rest) (inText : start + half ≤ text.length) :
    Views half buffer text start (windows half current pieces) := by
  induction cut generalizing current start with
  | nil =>
    rw [List.drop_eq_nil_iff] at left
    exact .done (Nat.le_antisymm inText left)
  | @last piece positive fits =>
    have length : piece.length = text.length - (start + half) := by rw [← left, List.length_drop]
    have view := carried.view (left ▸ List.prefix_rfl) positive fits (by omega)
    exact .last view (by omega)
  | @cons piece rest pieces full _ ih =>
    have view := carried.view (left ▸ List.prefix_append _ _) (by omega) (by omega) (by omega)
    rw [full, ← Nat.two_mul] at view
    refine .next view (ih (view.carried some) ?_ ?_)
    · rw [← List.drop_drop, left, ← full, List.drop_left]
    · have := view.inText
      omega

/-- The lower half of the buffer stands before the text. -/
theorem views_windows (some : 0 < half) (length : buffer.length = 2 * half)
    (cut : InPieces half text pieces) :
    Views half buffer (buffer.take half ++ text) 0 (windows half buffer pieces) := by
  have lower : (buffer.take half).length = half := by simp; omega
  have carried : Carried half buffer (buffer.take half ++ text) buffer 0 := by
    refine ⟨length, fun k low => ?_, fun _ => rfl, fun positive => absurd rfl positive⟩
    rw [Nat.zero_add, List.getElem?_append_left (by omega), List.getElem?_take_of_lt low]
  refine carried.views some cut ?_ ?_
  · rw [Nat.zero_add, List.drop_left' lower]
  · rw [List.length_append, lower]
    omega

/-- What every window preserves, given what it shows, holds when the text is read. -/
theorem Views.foldl {σ : Type} {f : σ → List α → σ} (P : Nat → σ → Prop) {state : σ}
    {all : List (List α)} (views : Views half buffer text start all)
    (step : ∀ start shown window state, View half buffer text window start shown →
      P (start + half) state → P (start + shown) (f state window))
    (begins : P (start + half) state) : P text.length (all.foldl f state) := by
  induction views generalizing state with
  | done whole => exact whole ▸ begins
  | last view whole => exact whole ▸ step _ _ _ _ view begins
  | next view _ ih =>
    have after := step _ _ _ _ view begins
    rw [Nat.two_mul, ← Nat.add_assoc] at after
    exact ih after

theorem Views.getElem? {all : List (List α)} (views : Views half buffer text start all) {k : Nat}
    (here : all[k]? = some window) :
    ∃ shown, View half buffer text window (start + half * k) shown := by
  induction views generalizing k with
  | done _ => simp at here
  | last view _ =>
    cases k with
    | zero =>
      obtain rfl := Option.some.inj here
      exact ⟨_, view⟩
    | succ k => simp at here
  | next view _ ih =>
    cases k with
    | zero =>
      obtain rfl := Option.some.inj here
      exact ⟨_, view⟩
    | succ k =>
      obtain ⟨shown, later⟩ := ih (by simpa using here)
      exact ⟨shown, by rwa [Nat.mul_succ, Nat.add_comm (half * k), ← Nat.add_assoc]⟩

theorem length_windows (half : Nat) (buffer : List α) (pieces : List (List α)) :
    (windows half buffer pieces).length = pieces.length := by
  induction pieces generalizing buffer with
  | nil => rfl
  | cons piece pieces ih => rw [windows, List.length_cons, ih, List.length_cons]

/-- A fold that does at each place what depends on the place only. -/
theorem foldl_eq_foldl_range {σ τ : Type} {f : σ → α → σ} {g : τ → Nat → τ} (read : σ → τ)
    (list : List α) (step : ∀ k a, list[k]? = some a → ∀ state, read (f state a) = g (read state) k)
    (state : σ) : read (list.foldl f state) = (List.range list.length).foldl g (read state) := by
  induction list using List.reverseRecOn with
  | nil => rfl
  | append_singleton list a ih =>
    have front := ih fun k b here => step k b (by
      rw [List.getElem?_append_left (List.getElem?_eq_some_iff.mp here).1, here])
    rw [List.foldl_append, List.foldl_cons, List.foldl_nil, step list.length a (by simp), front,
      List.length_append, List.length_singleton, List.range_succ, List.foldl_append,
      List.foldl_cons, List.foldl_nil]

end TestPrograms.Foundations
