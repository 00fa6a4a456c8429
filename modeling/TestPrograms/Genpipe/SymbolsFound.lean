import TestPrograms.Genpipe.KallsymsText

/-! # Every symbol is found

A symbol is complete in the buffer for the first time at a place of its upper half or just
below, with the line before it, so its look-up reads the sixteen digits of its line.  In the
next window, where it may stand too near to `buf`, its variable is set.
-/

namespace TestPrograms.Genpipe

open TestPrograms.Foundations

/-- The names that are looked up up to the end of their line. -/
def searched : List (List Byte × Var) :=
  [(ascii "kfree_skb", .kfreeskb),
   (ascii "__dev_kfree_skb_any", .devkfreeskbany),
   (ascii "__netdev_alloc_skb", .netdevallocskb),
   (ascii "netif_rx", .netifrx),
   (ascii "napi_gro_receive", .napigroreceive),
   (ascii "netif_receive_skb", .netifreceiveskb),
   (ascii "arp_rcv", .arprcv),
   (ascii "ip_rcv", .iprcv),
   (ascii "ipv6_rcv", .ipv6rcv),
   (ascii "ptype_all", .ptypeall),
   (ascii "ptype_base", firstBucket)]

def patternOf (name : List Byte) : List Byte := space :: name ++ [newline]

def Line.Names (line : Line) (name : List Byte) : Prop := line.tag = none ∧ line.name = name

instance (line : Line) (name : List Byte) : Decidable (line.Names name) :=
  inferInstanceAs (Decidable (_ ∧ _))

/-- The symbol is on at most one line without a tag, not the first, with an address. -/
structure Searchable (lines : List Line) (name : List Byte) : Prop where
  once : lines.countP (fun line => line.Names name) ≤ 1
  later : ∀ line ∈ lines.head?, ¬ line.Names name
  nonzero : ∀ line ∈ lines, line.Names name → line.address ≠ 0#64

/-- The variable has the value, and nothing was read before `buf` for it. -/
def Stored (v : Var) (value : Addr) (s : Scan) : Prop := s.vars v = value ∧ v ∉ s.early

/-! ## The look-ups of one window -/

section

variable {below : Fin 19 → Byte} {buf : List Byte} {s : Scan} {v : Var} {l : Lookup}
  {old new : Addr}

theorem lookUp_other (other : v ≠ l.var) (stored : Stored v old s) :
    Stored v old (lookUp below buf s l) := by
  unfold lookUp
  split
  · exact stored
  · split
    · refine ⟨(Function.update_of_ne other _ _).trans stored.1, ?_⟩
      dsimp only
      split
      · simp [other, stored.2]
      · exact stored.2
    · exact stored

theorem foldl_lookUp_other {ls : List Lookup} (other : v ∉ ls.map Lookup.var)
    (stored : Stored v old s) : Stored v old (ls.foldl (lookUp below buf) s) := by
  induction ls generalizing s with
  | nil => exact stored
  | cons l ls ih =>
    rw [List.map_cons, List.mem_cons, not_or] at other
    exact ih other.2 (lookUp_other other.1 stored)

theorem foldl_lookUp {ls : List Lookup} (different : (ls.map Lookup.var).Nodup) (member : l ∈ ls)
    (step : ∀ s, Stored l.var old s → Stored l.var new (lookUp below buf s l))
    (stored : Stored l.var old s) : Stored l.var new (ls.foldl (lookUp below buf) s) := by
  obtain ⟨before, after, rfl⟩ := List.append_of_mem member
  rw [List.map_append, List.map_cons, List.nodup_append] at different
  obtain ⟨_, rest, apart⟩ := different
  rw [List.foldl_append, List.foldl_cons]
  refine foldl_lookUp_other (List.nodup_cons.mp rest).1 (step _ (foldl_lookUp_other ?_ stored))
  exact fun earlier => apart _ earlier _ List.mem_cons_self rfl

theorem driverRange_stored (stored : Stored v old s) : Stored v old (driverRange buf s) := by
  unfold driverRange widen
  split
  · exact stored
  · dsimp only
    split_ifs <;> exact stored

theorem lookUpBase_other (other : ∀ i, v ≠ .ptypebase i) (stored : Stored v old s) :
    Stored v old (lookUpBase below buf s) := by
  unfold lookUpBase
  split
  · have kept : Stored v old (lookUp below buf s baseLookup) := lookUp_other (other 0) stored
    cases v with
    | ptypebase i => exact absurd rfl (other i)
    | _ => exact kept
  · exact stored

theorem lookUpBase_first (step : Stored (.ptypebase 0) new (lookUp below buf s baseLookup)) :
    Stored (.ptypebase 0) new (lookUpBase below buf s) := by
  unfold lookUpBase
  split
  · exact ⟨by simpa [fillBuckets] using step.1, step.2⟩
  · rename_i idle
    unfold lookUp at step
    split at step
    · exact step
    · rename_i found
      split at step
      · rename_i zero
        exact absurd ⟨by rw [found]; rfl, zero⟩ idle
      · exact step

theorem lookups_different : (lookups.map Lookup.var).Nodup := by decide

theorem searched_lookups : ∀ symbol ∈ searched,
    ⟨patternOf symbol.1, symbol.2⟩ ∈ lookups ∧ (∀ i, symbol.2 ≠ .ptypebase i) ∨
      (⟨patternOf symbol.1, symbol.2⟩ : Lookup) = baseLookup := by
  decide

theorem examine_stored {name : List Byte} (member : (name, v) ∈ searched)
    (step : ∀ s, Stored v old s → Stored v new (lookUp below buf s ⟨patternOf name, v⟩))
    (stored : Stored v old s) : Stored v new (examine below s buf) := by
  have ranged : Stored v old (driverRange buf s) := driverRange_stored stored
  rw [examine]
  rcases searched_lookups _ member with ⟨listed, other⟩ | base
  · exact lookUpBase_other other (foldl_lookUp lookups_different listed step ranged)
  · obtain ⟨pattern, rfl⟩ := Lookup.mk.inj base
    refine lookUpBase_first ?_
    rw [← base]
    exact step _ (foldl_lookUp_other (by decide) ranged)

end

/-! ## Where a symbol stands -/

/-- What the eleven names have in common. -/
structure PlainName (name : List Byte) : Prop where
  some : name ≠ []
  unbroken : ∀ c ∈ name, ¬ isblank c
  bracket : 0x5d#8 ∉ name
  short : name.length ≤ 19

theorem searched_plain : ∀ symbol ∈ searched, PlainName symbol.1 := by
  have all : ∀ symbol ∈ searched, symbol.1 ≠ [] ∧
      (symbol.1.all fun c => !isblank c && c != 0x5d#8) ∧ symbol.1.length ≤ 19 := by decide
  intro symbol member
  obtain ⟨some, chars, short⟩ := all symbol member
  have each := List.all_eq_true.mp chars
  refine ⟨some, fun c inside => ?_, fun inside => ?_, short⟩
  · have := each c inside
    simp_all
  · have := each _ inside
    simp_all

theorem PlainName.newline_not_mem {name : List Byte} (plain : PlainName name) :
    newline ∉ space :: name := by
  rw [List.mem_cons, not_or]
  exact ⟨by decide, fun member => plain.unbroken _ member newline_isblank⟩

/-- In the stream the name, between its space and its newline, stands only at `place`, and
    its line from eighteen places before. -/
structure Located (stream name : List Byte) (place : Nat) (line : Line) : Prop where
  only : ∀ i, OccursAt (patternOf name) stream i ↔ i = place
  record : OccursAt (newline :: (line.body ++ [newline])) stream (place - 19)
  inText : 64 < place

section

variable {junk name : List Byte} {lines : List Line} {line : Line} {index : Nat}

theorem Line.Names.body_length (names : line.Names name) :
    line.body.length = 19 + name.length := by
  have sixteen := line.sixteen
  simp [Line.body, Line.tagText, names.1, names.2, sixteen]
  omega

theorem occursAt_symbol (plain : PlainName name) (length : junk.length = 64)
    (clear : ¬ patternOf name <:+: junk) :
    OccursAt (patternOf name) (junk ++ textOf lines) index ↔
      ∃ before line after, lines = before ++ line :: after ∧ line.Names name ∧
        index = 64 + ((textOf before).length + 18) := by
  have unbroken := plain.newline_not_mem
  by_cases early : index < 64
  · refine iff_of_false (fun occurs => clear ?_) (by rintro ⟨_, _, _, _, _, rfl⟩; omega)
    have inJunk := occursAt_after_junk plain.unbroken occurs (by omega)
    exact inJunk.isInfix.trans (List.drop_suffix index junk).isInfix
  · obtain ⟨j, rfl⟩ := Nat.exists_eq_add_of_le (Nat.le_of_not_lt early)
    rw [← length, occursAt_append_right, patternOf, occursAt_textOf unbroken]
    constructor
    · rintro ⟨before, line, after, split, suffix, place⟩
      have names : line.Names name :=
        (line.name_of_suffix plain.some plain.unbroken plain.bracket).mp suffix
      refine ⟨before, line, after, split, names, ?_⟩
      rw [names.body_length, List.length_cons] at place
      omega
    · rintro ⟨before, line, after, split, names, place⟩
      refine ⟨before, line, after, split,
        (line.name_of_suffix plain.some plain.unbroken plain.bracket).mpr names, ?_⟩
      rw [names.body_length, List.length_cons]
      omega

/-- A searchable symbol is nowhere, or in one place. -/
theorem Searchable.cases (searchable : Searchable lines name) (plain : PlainName name)
    (length : junk.length = 64) (clear : ¬ patternOf name <:+: junk) :
    (∀ line ∈ lines, ¬ line.Names name) ∧
        (∀ i, ¬ OccursAt (patternOf name) (junk ++ textOf lines) i) ∨
      ∃ place line, line ∈ lines ∧ line.Names name ∧
        (∀ other ∈ lines, other.Names name → other = line) ∧
        Located (junk ++ textOf lines) name place line := by
  by_cases absent : ∀ line ∈ lines, ¬ line.Names name
  · refine .inl ⟨absent, fun i occurs => ?_⟩
    obtain ⟨before, line, after, rfl, names, _⟩ := (occursAt_symbol plain length clear).mp occurs
    exact absent line (by simp) names
  · push Not at absent
    obtain ⟨line, member, names⟩ := absent
    obtain ⟨before, after, rfl, noneBefore, noneAfter⟩ :=
      exists_split_of_countP searchable.once member names
    have some : before ≠ [] := by
      rintro rfl
      exact searchable.later line rfl names
    refine .inr ⟨64 + ((textOf before).length + 18), line, member, names, ?_, ?_, ?_, by omega⟩
    · intro other inside names'
      simp only [List.mem_append, List.mem_cons] at inside
      rcases inside with early | rfl | late
      · exact absurd names' (noneBefore other early)
      · rfl
      · exact absurd names' (noneAfter other late)
    · intro i
      rw [occursAt_symbol plain length clear]
      constructor
      · rintro ⟨before', line', after', same, names', rfl⟩
        rw [split_unique noneBefore noneAfter names' same]
      · rintro rfl
        exact ⟨before, line, after, rfl, names, rfl⟩
    · have long := textOf_long some
      rw [show 64 + ((textOf before).length + 18) - 19 =
        junk.length + ((textOf before).length - 1) by omega, occursAt_append_right]
      exact occursAt_line some

end

/-! ## One window -/

section

variable {below : Fin 19 → Byte} {buf window name : List Byte} {lines : List Line} {line : Line}
  {start shown place : Nat} {v : Var} {s : Scan}

theorem symbol_shown (view : View 64 buf (buf.take 64 ++ textOf lines) window start shown)
    (length : buf.length = 128) (plain : PlainName name) (clear : ¬ patternOf name <:+: buf)
    {offset : Nat} (found : strnstr window (patternOf name) = some offset) :
    offset + (patternOf name).length ≤ shown ∧
      OccursAt (patternOf name) (buf.take 64 ++ textOf lines) (start + offset) := by
  have unbroken := plain.newline_not_mem
  refine view.firstMatch_shown (by decide) unbroken (stream_ends view length) ?_ found
  intro _ occurs
  exact clear (occurs.isInfix.trans (List.drop_suffix offset buf).isInfix)

theorem lookUp_absent (view : View 64 buf (buf.take 64 ++ textOf lines) window start shown)
    (length : buf.length = 128) (plain : PlainName name) (clear : ¬ patternOf name <:+: buf)
    (absent : ∀ i, ¬ OccursAt (patternOf name) (buf.take 64 ++ textOf lines) i) :
    lookUp below window s ⟨patternOf name, v⟩ = s := by
  cases found : strnstr window (patternOf name) with
  | none => simp only [lookUp, found]
  | some offset => exact absurd (symbol_shown view length plain clear found).2 (absent _)

theorem sscanf_window (below : Fin 19 → Byte)
    (view : View 64 buf (buf.take 64 ++ textOf lines) window start shown)
    (names : line.Names name) (located : Located (buf.take 64 ++ textOf lines) name place line)
    {offset : Nat} (here : start + offset = place) (room : 19 ≤ offset)
    (inside : offset + (patternOf name).length ≤ shown) :
    sscanf ((List.ofFn below ++ window).drop offset) = some line.address := by
  have record := located.record
  rw [← here, show start + offset - 19 = start + (offset - 19) by omega,
    ← view.shows.occursAt] at record
  · obtain ⟨rest, from_⟩ := record.drop_eq
    rw [List.drop_append, List.drop_of_length_le (by simpa using room), List.nil_append,
      List.length_ofFn, from_, Line.body]
    simp only [List.cons_append, List.append_assoc]
    exact line.sscanf_newline _
  · have whole := names.body_length
    simp [patternOf] at inside ⊢
    omega

/-- The variable is set when the symbol is complete in what was read. -/
theorem lookUp_located (view : View 64 buf (buf.take 64 ++ textOf lines) window start shown)
    (length : buf.length = 128) (plain : PlainName name) (clear : ¬ patternOf name <:+: buf)
    (names : line.Names name) (nonzero : line.address ≠ 0#64)
    (located : Located (buf.take 64 ++ textOf lines) name place line)
    (stored : Stored v (if place + (patternOf name).length ≤ start + 64 then line.address else 0#64) s) :
    Stored v (if place + (patternOf name).length ≤ start + shown then line.address else 0#64)
      (lookUp below window s ⟨patternOf name, v⟩) := by
  have more := view.more
  have short := plain.short
  have size : (patternOf name).length = name.length + 2 := by simp [patternOf]
  cases found : strnstr window (patternOf name) with
  | none =>
    rw [lookUp, found]
    by_cases before : place + (patternOf name).length ≤ start + 64
    · rw [if_pos before] at stored
      rwa [if_pos (by omega)]
    · -- what the window newly completes it would have found
      have later : ¬ place + (patternOf name).length ≤ start + shown := by
        intro complete
        obtain ⟨offset, rfl⟩ := Nat.exists_eq_add_of_le (show start ≤ place by omega)
        refine firstMatch_eq_none_iff.mp found offset ((view.shows.occursAt (by omega)).mpr ?_)
        exact (located.only _).mpr rfl
      rw [if_neg before] at stored
      rwa [if_neg later]
  | some offset =>
    obtain ⟨inside, occurs⟩ := symbol_shown view length plain clear found
    have here := (located.only _).mp occurs
    rw [if_pos (show place + (patternOf name).length ≤ start + shown by omega)]
    by_cases before : place + (patternOf name).length ≤ start + 64
    · rw [if_pos before] at stored
      rw [lookUp, found]
      simpa [stored.1, nonzero] using stored
    · rw [if_neg before] at stored
      have room : 19 ≤ offset := by omega
      have read := sscanf_window below view names located here room inside
      rw [lookUp, found]
      simp only [stored.1, if_true, read, Option.getD_some, if_neg (Nat.not_lt.mpr room)]
      exact ⟨Function.update_self _ _ _, stored.2⟩

theorem windows_stored (below : Fin 19 → Byte) {pieces : List (List Byte)}
    (cut : InPieces 64 (textOf lines) pieces)
    (length : buf.length = 128) (member : (name, v) ∈ searched)
    (clear : ¬ patternOf name <:+: buf) (searchable : Searchable lines name)
    (stored : Stored v 0#64 s) :
    ∃ value, Stored v value ((windows 64 buf pieces).foldl (examine below) s) ∧
      (∀ line ∈ lines, line.Names name → value = line.address) ∧
      ((∀ line ∈ lines, ¬ line.Names name) → value = 0#64) := by
  have plain : PlainName name := searched_plain _ member
  have half := length_lowerHalf length
  have clearHalf : ¬ patternOf name <:+: buf.take 64 := fun inside =>
    clear (inside.trans (List.take_prefix 64 buf).isInfix)
  rcases searchable.cases plain half clearHalf with
    ⟨absent, nowhere⟩ | ⟨place, line, inLines, names, unique, located⟩
  · refine ⟨0#64, ?_, fun line inside names => absurd names (absent line inside), fun _ => rfl⟩
    refine (views_windows (by decide) length cut).foldl (fun _ => Stored v 0#64) ?_ stored
    intro start shown window s view stored
    refine examine_stored member (fun s stored => ?_) stored
    rwa [lookUp_absent view length plain clear nowhere]
  · refine ⟨line.address, ?_, fun other inside names' => by rw [unique other inside names'],
      fun none => absurd names (none line inLines)⟩
    have inText := located.inText
    have whole := ((located.only place).mpr rfl).fits (by simp [patternOf])
    have final : Stored v
        (if place + (patternOf name).length ≤ (buf.take 64 ++ textOf lines).length then
          line.address else 0#64)
        ((windows 64 buf pieces).foldl (examine below) s) := by
      refine (views_windows (by decide) length cut).foldl (fun complete => Stored v
        (if place + (patternOf name).length ≤ complete then line.address else 0#64))
        ?_ (by rwa [if_neg (by omega)])
      intro start shown window s view stored
      refine examine_stored member (fun s => ?_) stored
      exact lookUp_located view length plain clear names
        (searchable.nonzero line inLines names) located
    rwa [if_pos whole] at final

end

/-! ## The whole table -/

/-- Every one of the eleven symbols that the table has once, without a tag, after the first
    line and with an address ends up with that address, one that it does not have with zero;
    no look-up of one of them reads before `buf`. -/
theorem symbols_found (lines : List Line) {pieces : List (List Byte)}
    (cut : InPieces 64 (textOf lines) pieces) {fileRead : BitVec 64 → List Byte}
    (reads : ReadsAs fileRead 0#32 pieces)
    (searchable : ∀ symbol ∈ searched, Searchable lines symbol.1)
    (below : Fin 19 → Byte) {buf : List Byte} (length : buf.length = 128)
    (clear : ∀ symbol ∈ searched, ¬ patternOf symbol.1 <:+: buf) (adr : Addr) (g : Globals) :
    ∃ s, (∀ fuel, pieces.length < fuel →
        getTableEntry (some fileRead) below buf adr fuel g = some (0, s)) ∧
      ∀ symbol ∈ searched, symbol.2 ∉ s.early ∧
        (∀ line ∈ lines, line.Names symbol.1 → s.vars symbol.2 = line.address) ∧
        ((∀ line ∈ lines, ¬ line.Names symbol.1) → s.vars symbol.2 = 0#64) := by
  refine ⟨_, fun fuel enough => getTableEntry_eq_foldl cut reads enough buf adr g, ?_⟩
  rintro ⟨name, v⟩ member
  have cleared : Stored v 0#64 { g.clear with adr, early := [] } := ⟨rfl, List.not_mem_nil⟩
  obtain ⟨value, stored, found, missing⟩ :=
    windows_stored below cut length member (clear _ member) (searchable _ member) cleared
  exact ⟨stored.2, fun line inside names => stored.1.trans (found line inside names),
    fun none => stored.1.trans (missing none)⟩

/-- A symbol of the kernel, one of a module under a name that is searched, and `ip_rcv`. -/
def sampleTable : List Line :=
  [{ digits := List.replicate 16 0x65#8, type := 0x44#8, name := [0x5f#8], tag := none,
     sixteen := by decide, hex := by decide, letter := by decide, unbroken := by decide,
     oneLine := oneLine_none },
   { digits := List.replicate 15 0x65#8 ++ [0x31#8], type := 0x64#8, name := ascii "ip_rcv",
     tag := some [0x61#8], sixteen := by decide, hex := by decide, letter := by decide,
     unbroken := by decide, oneLine := by decide },
   { digits := List.replicate 15 0x65#8 ++ [0x32#8], type := 0x44#8, name := ascii "ip_rcv",
     tag := none, sixteen := by decide, hex := by decide, letter := by decide,
     unbroken := by decide, oneLine := oneLine_none }]

theorem sampleTable_searchable : ∀ symbol ∈ searched, Searchable sampleTable symbol.1 := by
  have all : ∀ symbol ∈ searched, sampleTable.countP (fun line => line.Names symbol.1) ≤ 1 ∧
      (∀ line ∈ sampleTable.head?, ¬ line.Names symbol.1) ∧
      ∀ line ∈ sampleTable, line.Names symbol.1 → line.address ≠ 0#64 := by decide
  intro symbol member
  obtain ⟨once, later, nonzero⟩ := all symbol member
  exact ⟨once, later, nonzero⟩

theorem zeroes_clear : ∀ symbol ∈ searched, ¬ patternOf symbol.1 <:+: List.replicate 128 0#8 := by
  intro symbol _ inside
  have member : space ∈ List.replicate 128 0#8 := inside.subset List.mem_cons_self
  exact absurd (List.eq_of_mem_replicate member) (by decide)

theorem symbols_found_sample :
    let start : Globals := { vars := fun _ => 7#64, driverTop := 0#64, driverBottom := 0#64 }
    ∃ fuel s, getTableEntry (some (wholeFile (textOf sampleTable))) (fun _ => 0x61#8)
        (List.replicate 128 0#8) 0#64 fuel start = some (0, s) ∧
      s.vars .iprcv = 0xeeeeeeeeeeeeeee2#64 ∧ s.vars .arprcv = 0#64 := by
  intro start
  have short : (textOf sampleTable).length = 77 := by decide
  obtain ⟨pieces, cut, reads⟩ := reads_wholeFile (short.trans_lt (by decide))
  obtain ⟨s, ends, found⟩ := symbols_found sampleTable cut reads sampleTable_searchable
    (fun _ => 0x61#8) List.length_replicate zeroes_clear 0#64 start
  refine ⟨pieces.length + 1, s, ends _ (Nat.lt_succ_self _), ?_, ?_⟩
  · have names : sampleTable[2].Names (ascii "ip_rcv") := by decide
    have line := (found (ascii "ip_rcv", .iprcv) (by decide)).2.1
    exact (line sampleTable[2] (List.getElem_mem _) names).trans (by decide)
  · exact (found (ascii "arp_rcv", .arprcv) (by decide)).2.2 (by decide)

end TestPrograms.Genpipe
