import Mathlib.Data.List.Sort
import Mathlib.Tactic.Ring
import TestPrograms.Foundations.Overwrite
import TestPrograms.Iplookup.Table

/-! # Longest-prefix match

Each entry writes the cells of its range, the writes of one prefix length follow those of
the shorter ones, and within a length they stand in the order of the array.  So a cell
ends up with the entry that is greatest by length and then by position among those that
cover it, which is what a lookup should find.
-/

namespace TestPrograms.Iplookup

open TestPrograms.Foundations

/-! ## The range of an entry -/

/-- The entry takes part and its prefix covers `a`. -/
def Matches (entry : Fib) (a : Word) : Prop :=
  2 ≤ entry.subnet.toNat ∧ entry.subnet.toNat ≤ 24 ∧
    a >>> (32 - entry.subnet.toNat) = entry.ip >>> (32 - entry.subnet.toNat)

instance (entry : Fib) (a : Word) : Decidable (Matches entry a) :=
  inferInstanceAs (Decidable (_ ∧ _))

theorem hostMask_toNat {subnet : Nat} (low : 1 ≤ subnet) (high : subnet ≤ 32) :
    (hostMask subnet).toNat = 2 ^ (32 - subnet) - 1 := by
  have small : 2 ^ (32 - subnet) ≤ 2 ^ 31 := Nat.pow_le_pow_right (by omega) (by omega)
  have positive : 0 < 2 ^ (32 - subnet) := Nat.two_pow_pos _
  simp only [hostMask, BitVec.toNat_sub, BitVec.toNat_shiftLeft, BitVec.toNat_ofNat,
    Nat.shiftLeft_eq]
  omega

theorem or_two_pow_sub_one (n w : Nat) : n ||| (2 ^ w - 1) = n / 2 ^ w * 2 ^ w + (2 ^ w - 1) := by
  have below : 2 ^ w - 1 < 2 ^ w := Nat.sub_lt (Nat.two_pow_pos w) Nat.one_pos
  rw [Nat.mul_comm, Nat.two_pow_add_eq_or_of_lt below]
  apply Nat.eq_of_testBit_eq
  intro i
  simp only [Nat.testBit_or, Nat.testBit_two_pow_sub_one, Nat.testBit_two_pow_mul,
    Nat.testBit_div_two_pow]
  by_cases inside : i < w
  · simp [inside]
  · have outside : w ≤ i := by omega
    simp [inside, outside]

theorem ipEnd_toNat (entry : Fib) {subnet : Nat} (low : 1 ≤ subnet) (high : subnet ≤ 32) :
    (ipEnd entry subnet).toNat =
      entry.ip.toNat / 2 ^ (32 - subnet) * 2 ^ (32 - subnet) + (2 ^ (32 - subnet) - 1) := by
  rw [ipEnd, BitVec.toNat_or, hostMask_toNat low high, or_two_pow_sub_one]

theorem ipStart_toNat (entry : Fib) {subnet : Nat} (low : 1 ≤ subnet) (high : subnet ≤ 32) :
    (ipStart entry subnet).toNat = entry.ip.toNat / 2 ^ (32 - subnet) * 2 ^ (32 - subnet) := by
  have cleared : ipStart entry subnet =
      (entry.ip >>> (32 - subnet)) <<< (32 - subnet) := by
    apply BitVec.eq_of_getLsbD_eq
    intro i inside
    have bit : (hostMask subnet).getLsbD i = decide (i < 32 - subnet) := by
      rw [BitVec.getLsbD, hostMask_toNat low high, Nat.testBit_two_pow_sub_one]
    simp only [ipStart, BitVec.getLsbD_and, BitVec.getLsbD_not, bit, BitVec.getLsbD_shiftLeft,
      BitVec.getLsbD_ushiftRight, inside, decide_true, Bool.true_and]
    by_cases masked : i < 32 - subnet
    · simp [masked]
    · rw [show 32 - subnet + (i - (32 - subnet)) = i by omega]
      simp [masked]
  have below : entry.ip.toNat / 2 ^ (32 - subnet) * 2 ^ (32 - subnet) < 2 ^ 32 :=
    Nat.lt_of_le_of_lt (Nat.div_mul_le_self _ _) entry.ip.isLt
  rw [cleared, BitVec.toNat_shiftLeft, BitVec.toNat_ushiftRight, Nat.shiftRight_eq_div_pow,
    Nat.shiftLeft_eq, Nat.mod_eq_of_lt below]

/-- The cells that `mapping_fib` writes for an entry. -/
def Spans (entry : Fib) (cell : Nat) : Prop :=
  (ipStart entry entry.subnet.toNat >>> 8).toNat ≤ cell ∧
    cell ≤ (ipEnd entry entry.subnet.toNat >>> 8).toNat

instance (entry : Fib) (cell : Nat) : Decidable (Spans entry cell) :=
  inferInstanceAs (Decidable (_ ∧ _))

/-- The cells of an entry are those of the addresses its prefix covers. -/
theorem spans_iff {entry : Fib} (low : 2 ≤ entry.subnet.toNat) (high : entry.subnet.toNat ≤ 24)
    (a : Word) : Spans entry (a >>> 8).toNat ↔ Matches entry a := by
  obtain ⟨shift, width⟩ : ∃ shift, 32 - entry.subnet.toNat = 8 + shift := ⟨24 - entry.subnet.toNat, by omega⟩
  have positive : 0 < 2 ^ shift := Nat.two_pow_pos shift
  have matches_iff : Matches entry a ↔ a.toNat / 2 ^ (8 + shift) = entry.ip.toNat / 2 ^ (8 + shift) := by
    simp only [Matches, low, high, true_and, width, ← BitVec.toNat_inj, BitVec.toNat_ushiftRight,
      Nat.shiftRight_eq_div_pow]
  rw [matches_iff, Spans]
  simp only [BitVec.toNat_ushiftRight, Nat.shiftRight_eq_div_pow]
  rw [ipStart_toNat entry (by omega) (by omega), ipEnd_toNat entry (by omega) (by omega), width]
  -- with `q` the prefix of the entry, its cells are those from `q * 2 ^ shift` on
  generalize entry.ip.toNat / 2 ^ (8 + shift) = q
  have first : q * 2 ^ (8 + shift) / 2 ^ 8 = q * 2 ^ shift := by
    rw [Nat.pow_add, Nat.mul_left_comm, Nat.mul_div_cancel_left _ (by omega)]
  have last : (q * 2 ^ (8 + shift) + (2 ^ (8 + shift) - 1)) / 2 ^ 8 = q * 2 ^ shift + 2 ^ shift - 1 := by
    rw [Nat.pow_add, Nat.mul_left_comm]
    omega
  rw [first, last, Nat.pow_add, ← Nat.div_div_eq_div_mul, Nat.div_eq_iff positive]

/-! ## What the loops write -/

theorem fillRange_spec (gw : Word) (fuel : Nat) {ip last : Word} (table : Table)
    (inside : last.toNat < tableSize) (enough : last.toNat < ip.toNat + fuel) :
    fillRange last gw fuel ip table =
      .ok fun cell => if ip.toNat ≤ cell ∧ cell ≤ last.toNat then gw else table cell := by
  have size : tableSize = 2 ^ 24 := by decide
  -- a round takes `ip` one on, and below the size of the table it neither wraps nor is masked
  induction fuel generalizing ip table with
  | zero =>
    have past : ¬ ip ≤ last := by
      rw [BitVec.le_def]
      omega
    rw [fillRange, if_neg past]
    congr 1
    funext cell
    rw [if_neg (by omega)]
  | succ fuel ih =>
    by_cases going : ip ≤ last
    · have order := BitVec.le_def.mp going
      have cell : (ip &&& 0xffffff#32).toNat = ip.toNat := by
        rw [BitVec.toNat_and, show (0xffffff#32).toNat = 2 ^ 24 - 1 by decide,
          Nat.and_two_pow_sub_one_eq_mod]
        omega
      have next : (ip + 1#32).toNat = ip.toNat + 1 := by
        rw [BitVec.toNat_add, show (1#32).toNat = 1 by decide]
        omega
      have write : writeCell table (ip &&& 0xffffff#32) gw =
          .ok (Function.update table ip.toNat gw) := by
        rw [writeCell, cell, if_pos (by omega)]
      rw [fillRange, if_pos going]
      simp only [write]
      rw [ih _ (by omega), next]
      congr 1
      funext cell
      by_cases here : cell = ip.toNat
      · subst here
        rw [if_neg (by omega), Function.update_self, if_pos (by omega)]
      · rw [Function.update_of_ne here]
        split <;> split <;> first | rfl | omega
    · have order : ¬ ip.toNat ≤ last.toNat := fun order => going (BitVec.le_def.mpr order)
      rw [fillRange, if_neg going]
      congr 1
      funext cell
      rw [if_neg (by omega)]

abbrev fillEntry : Table → Fib × Nat → Table :=
  overwrite (fun write cell => Spans write.1 cell) fun write => write.1.gw.zeroExtend 32

theorem fillRange_entry {fuel : Nat} (enough : tableSize ≤ fuel) (entry : Fib) (position : Nat)
    (table : Table) :
    fillRange (ipEnd entry entry.subnet.toNat >>> 8) (entry.gw.zeroExtend 32) fuel
        (ipStart entry entry.subnet.toNat >>> 8) table = .ok (fillEntry table (entry, position)) := by
  have inside : (ipEnd entry entry.subnet.toNat >>> 8).toNat < tableSize := by
    have top := (ipEnd entry entry.subnet.toNat).isLt
    rw [BitVec.toNat_ushiftRight, Nat.shiftRight_eq_div_pow, tableSize]
    omega
  rw [fillRange_spec _ fuel table inside (by omega)]
  rfl

/-- The writes for one prefix length, in the order of the array from `first` on. -/
def writesOf (subnet first : Nat) (fib : List Fib) : List (Fib × Nat) :=
  (fib.zipIdx first).filter fun write => write.1.subnet.toNat = subnet

theorem mapSubnet_spec {fuel : Nat} (enough : tableSize ≤ fuel) (subnet first : Nat) (fib : List Fib)
    (table : Table) :
    mapSubnet fuel subnet fib table = .ok ((writesOf subnet first fib).foldl fillEntry table) := by
  induction fib generalizing first table with
  | nil => rfl
  | cons entry fib ih =>
    simp only [mapSubnet, writesOf, List.zipIdx_cons, List.filter_cons, decide_eq_true_eq]
    split
    · rename_i same
      subst same
      simp only [fillRange_entry enough entry first, List.foldl_cons]
      exact ih _ _
    · exact ih _ _

theorem mapSubnets_spec {fuel : Nat} (enough : tableSize ≤ fuel) (fib : List Fib)
    (subnets : List Nat) (table : Table) :
    mapSubnets fuel fib subnets table =
      .ok ((subnets.flatMap fun subnet => writesOf subnet 0 fib).foldl fillEntry table) := by
  induction subnets generalizing table with
  | nil => rfl
  | cons subnet subnets ih =>
    simp only [mapSubnets, mapSubnet_spec enough subnet 0, List.flatMap_cons, List.foldl_append]
    exact ih _

/-- Shorter prefixes first, and then the order of the array. -/
def Earlier (first second : Fib × Nat) : Prop :=
  first.1.subnet.toNat < second.1.subnet.toNat ∨
    first.1.subnet = second.1.subnet ∧ first.2 < second.2

theorem mem_writesOf {subnet : Nat} {fib : List Fib} {write : Fib × Nat} :
    write ∈ writesOf subnet 0 fib ↔ fib[write.2]? = some write.1 ∧ write.1.subnet.toNat = subnet := by
  rw [writesOf, List.mem_filter, List.mem_zipIdx_iff_getElem?, decide_eq_true_eq]

theorem writesOf_sorted (subnet : Nat) (fib : List Fib) :
    (writesOf subnet 0 fib).Pairwise Earlier := by
  have positions : (fib.zipIdx 0).Pairwise fun first second => first.2 < second.2 := by
    rw [← List.pairwise_map, List.zipIdx_map_snd]
    exact List.pairwise_lt_range'
  refine (positions.filter _).imp_of_mem ?_
  intro first second inFirst inSecond order
  -- all of them have the one length, so the position decides
  have same := (mem_writesOf.mp inFirst).2.trans (mem_writesOf.mp inSecond).2.symm
  exact .inr ⟨BitVec.eq_of_toNat_eq same, order⟩

theorem writes_sorted (fib : List Fib) :
    ((List.range' 2 23).flatMap fun subnet => writesOf subnet 0 fib).Pairwise Earlier := by
  rw [List.pairwise_flatMap]
  have lengths : (List.range' 2 23).Pairwise (· < ·) := List.pairwise_lt_range'
  refine ⟨fun subnet _ => writesOf_sorted subnet fib, lengths.imp ?_⟩
  intro shorter longer order first inFirst second inSecond
  have short := (mem_writesOf.mp inFirst).2
  have long := (mem_writesOf.mp inSecond).2
  exact .inl (by omega)

theorem mem_writes {fib : List Fib} {write : Fib × Nat} :
    (write ∈ (List.range' 2 23).flatMap fun subnet => writesOf subnet 0 fib) ↔
      fib[write.2]? = some write.1 ∧ 2 ≤ write.1.subnet.toNat ∧ write.1.subnet.toNat ≤ 24 := by
  simp only [List.mem_flatMap, mem_writesOf, List.mem_range'_1]
  constructor
  · rintro ⟨subnet, range, present, rfl⟩
    exact ⟨present, by omega, by omega⟩
  · rintro ⟨present, low, high⟩
    exact ⟨_, by omega, present, rfl⟩

/-! ## The lookup -/

theorem cell_lt (a : Word) : (a >>> 8).toNat < tableSize := by
  have top := a.isLt
  rw [BitVec.toNat_ushiftRight, Nat.shiftRight_eq_div_pow, tableSize]
  omega

theorem lookupLoop_spec (table : Table) (routing : Nat → Word) (i count : Nat) (results : Nat → Word) :
    lookupLoop table routing i count results = .ok fun k =>
      if i ≤ k ∧ k < i + count then table (routing k >>> 8).toNat else results k := by
  induction count generalizing i results with
  | zero =>
    rw [lookupLoop]
    congr 1
    funext k
    rw [if_neg (by omega)]
  | succ count ih =>
    simp only [lookupLoop, readCell, cell_lt, if_true, ih]
    congr 1
    funext k
    by_cases here : k = i
    · subst here
      rw [if_neg (by omega), Function.update_self, if_pos (by omega)]
    · rw [Function.update_of_ne here]
      split <;> split <;> first | rfl | omega

/-- The entry at `position` covers `a`, with a prefix longer than any other entry that
    does, or as long and standing later. -/
structure LongestMatch (fib : List Fib) (a : Word) (position : Nat) (entry : Fib) : Prop where
  present : fib[position]? = some entry
  covers : Matches entry a
  greatest : ∀ other place, fib[place]? = some other → Matches other a →
    other.subnet.toNat < entry.subnet.toNat ∨ other.subnet = entry.subnet ∧ place ≤ position

theorem mappingFib_longest (fib : List Fib) :
    ∃ table, mappingFib tableSize fib (fun _ => 0#32) = .ok table ∧ ∀ a : Word,
      (∃ position entry, LongestMatch fib a position entry ∧
        table (a >>> 8).toNat = entry.gw.zeroExtend 32) ∨
      ((∀ entry ∈ fib, ¬ Matches entry a) ∧ table (a >>> 8).toNat = 0#32) := by
  refine ⟨_, mapSubnets_spec (Nat.le_refl _) fib _ _, fun a => ?_⟩
  rcases foldl_overwrite_sorted (fun (write : Fib × Nat) cell => Spans write.1 cell) _
    (writes_sorted fib) (fun _ => 0#32) (a >>> 8).toNat with
    ⟨⟨entry, position⟩, member, spans, greatest, stored⟩ | ⟨none, stored⟩
  · obtain ⟨present, low, high⟩ := mem_writes.mp member
    refine .inl ⟨position, entry, ⟨present, (spans_iff low high _).mp spans, ?_⟩, stored⟩
    intro other place there covers
    have among : (other, place) ∈ _ := mem_writes.mpr ⟨there, covers.1, covers.2.1⟩
    -- what covers `a` covers its cell and has been written
    rcases greatest (other, place) among ((spans_iff covers.1 covers.2.1 _).mpr covers) with
      same | longer | ⟨same, before⟩
    · cases same
      exact .inr ⟨rfl, Nat.le_refl _⟩
    · exact .inl longer
    · exact .inr ⟨same, Nat.le_of_lt before⟩
  · refine .inr ⟨fun entry inFib covers => ?_, stored⟩
    obtain ⟨place, there⟩ := List.getElem?_of_mem inFib
    exact none (entry, place) (mem_writes.mpr ⟨there, covers.1, covers.2.1⟩)
      ((spans_iff covers.1 covers.2.1 _).mpr covers)

/-- On a zeroed table both functions end inside the table, and every lookup gives the
    gateway of the longest match, or 0 where nothing matches. -/
theorem lookup_longest_match (fib : List Fib) (routing results : Nat → Word) (routingCount : Nat) :
    ∃ table found, mappingFib tableSize fib (fun _ => 0#32) = .ok table ∧
      iplookupHost table routing results routingCount = .ok found ∧
      ∀ i < routingCount,
        (∃ position entry, LongestMatch fib (routing i) position entry ∧
          found i = entry.gw.zeroExtend 32) ∨
        ((∀ entry ∈ fib, ¬ Matches entry (routing i)) ∧ found i = 0#32) := by
  obtain ⟨table, maps, longest⟩ := mappingFib_longest fib
  refine ⟨table, _, maps, lookupLoop_spec _ _ _ _ _, fun i below => ?_⟩
  rw [if_pos (by omega)]
  exact longest (routing i)

end TestPrograms.Iplookup
