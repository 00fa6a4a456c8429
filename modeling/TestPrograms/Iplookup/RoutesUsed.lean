import TestPrograms.Iplookup.LongestPrefix
import TestPrograms.Iplookup.RoutesLoaded

/-! # The routes that are used

`load_fib` takes lengths from 0 to 24, `mapping_fib` maps those from 2 on: a route of length 0 or
1 is in the table and decides nothing.
-/

namespace TestPrograms.Iplookup

/-- The prefix of the entry covers `x`, whatever its length. -/
def Covers (entry : Fib) (x : Word) : Prop :=
  x >>> (32 - entry.subnet.toNat) = entry.ip >>> (32 - entry.subnet.toNat)

instance (entry : Fib) (x : Word) : Decidable (Covers entry x) := inferInstanceAs (Decidable (_ = _))

/-- The entry covers `x`, and no other that does is as long. -/
structure Decides (fib : List Fib) (x : Word) (position : Nat) (entry : Fib) : Prop where
  present : fib[position]? = some entry
  covers : Covers entry x
  alone : ∀ place other, place ≠ position → fib[place]? = some other → Covers other x →
    other.subnet.toNat < entry.subnet.toNat

theorem Decides.longestMatch {fib : List Fib} {x : Word} {position place : Nat} {entry other : Fib}
    (decides : Decides fib x position entry) (low : 2 ≤ entry.subnet.toNat) (high : entry.subnet.toNat ≤ 24)
    (longest : LongestMatch fib x place other) : other = entry := by
  by_cases same : place = position
  · subst same
    exact Option.some.inj (longest.present.symm.trans decides.present)
  · have shorter := decides.alone place other same longest.present longest.covers.2.2
    rcases longest.greatest entry position decides.present ⟨low, high, decides.covers⟩ with
      longer | ⟨equal, -⟩
    · omega
    · rw [equal] at shorter
      exact absurd shorter (Nat.lt_irrefl _)

theorem Decides.no_match {fib : List Fib} {x : Word} {position : Nat} {entry : Fib}
    (decides : Decides fib x position entry) (short : entry.subnet.toNat < 2) {other : Fib}
    (member : other ∈ fib) : ¬ Matches other x := by
  intro covers
  obtain ⟨place, there⟩ := List.getElem?_of_mem member
  have apart : place ≠ position := by
    rintro rfl
    obtain rfl := Option.some.inj (there.symm.trans decides.present)
    exact absurd covers.1 (by omega)
  have shorter := decides.alone place other apart there covers.2.2
  have long := covers.1
  omega

section

variable (rand : Nat → Word) {lines : List Vars}

theorem storesOf_short (valid : ∀ line ∈ lines, line.Valid) :
    ∀ store ∈ storesOf rand 0 lines, store.2.subnet.toNat ≤ 24 := by
  rw [storesOf, List.forall_mem_map]
  rintro ⟨line, k⟩ member
  have kept := valid line (List.mem_filter.mp (List.fst_mem_of_mem_zipIdx member)).1
  have route := congrArg Prod.snd (kept.entry_route (rand k))
  have value := toNat_of_toInt kept.subnet.1
  have high := kept.subnet.2
  have length : (line.entry (rand k)).subnet = BitVec.ofNat 8 line.subnet.toNat := route
  show (line.entry (rand k)).subnet.toNat ≤ 24
  rw [length, BitVec.toNat_ofNat, Nat.mod_eq_of_lt (by omega)]
  omega

/-- A route that decides an address is what its lookup gives if and only if it is of length 2 or
    more, or its gateway is the 0 of a cell that is not mapped. -/
theorem route_used_iff (vars : Vars) {text : List Char} (file : FileOf text lines)
    (valid : ∀ line ∈ lines, line.Valid) :
    ∃ s table, loadFib rand (lines.length + 1) vars text = .ok s ∧
      mappingFib tableSize s.fib (fun _ => 0#32) = .ok table ∧
      ∀ x position entry, Decides s.fib x position entry →
        ∀ (routing results : Nat → Word) (routingCount : Nat),
          ∃ found, iplookupHost table routing results routingCount = .ok found ∧
            ∀ i < routingCount, routing i = x →
              (found i = entry.gw.zeroExtend 32 ↔ 2 ≤ entry.subnet.toNat ∨ entry.gw = 0#8) := by
  obtain ⟨s, ends, stores⟩ := loadFib_file rand file vars
  obtain ⟨table, maps, longest⟩ := mappingFib_longest s.fib
  refine ⟨s, table, ends, maps, fun x position entry decides routing results routingCount => ?_⟩
  refine ⟨_, lookupLoop_spec table routing 0 routingCount results, fun i below same => ?_⟩
  rw [if_pos (by omega), same]
  have high : entry.subnet.toNat ≤ 24 := by
    obtain ⟨store, member, rfl⟩ := List.mem_map.mp (List.mem_of_getElem? decides.present)
    rw [stores] at member
    exact storesOf_short rand valid store member
  by_cases long : 2 ≤ entry.subnet.toNat
  · rcases longest x with ⟨place, other, greatest, stored⟩ | ⟨none, -⟩
    · obtain rfl := decides.longestMatch long high greatest
      exact iff_of_true stored (.inl long)
    · exact absurd ⟨long, high, decides.covers⟩ (none entry (List.mem_of_getElem? decides.present))
  · rcases longest x with ⟨place, other, greatest, -⟩ | ⟨-, stored⟩
    · have member := List.mem_of_getElem? greatest.present
      exact absurd greatest.covers (decides.no_match (by omega) member)
    · have zero : 0#32 = entry.gw.zeroExtend 32 ↔ entry.gw = 0#8 := by
        have bound := entry.gw.isLt
        rw [BitVec.toNat_eq, BitVec.toNat_eq, BitVec.toNat_setWidth, Nat.mod_eq_of_lt (by omega)]
        exact eq_comm
      rw [stored, zero]
      exact ⟨.inr, fun either => either.resolve_left long⟩

end

theorem route_used_sample :
    ∃ s table, loadFib (fun _ => 7) 2 ⟨0, 0, 0, 0, 0⟩ (slashEight ['0']) = .ok s ∧
      mappingFib tableSize s.fib (fun _ => 0#32) = .ok table ∧
      ∀ x position entry, Decides s.fib x position entry →
        ∀ (routing results : Nat → Word) (routingCount : Nat),
          ∃ found, iplookupHost table routing results routingCount = .ok found ∧
            ∀ i < routingCount, routing i = x →
              (found i = entry.gw.zeroExtend 32 ↔ 2 ≤ entry.subnet.toNat ∨ entry.gw = 0#8) :=
  route_used_iff (fun _ => 7) ⟨0, 0, 0, 0, 0⟩ (.last (slashEight_lineOf zero_spells)) (by decide)

def defaultRoute : List Char := ['0', '.', '0', '.', '0', '.', '0', '/', '0']

/-- The default route alone, with the gateway 7: every lookup gives 0. -/
theorem default_route_ignored :
    FileOf defaultRoute [⟨0, 0, 0, 0, 0⟩] ∧
      ∃ s table found, loadFib (fun _ => 7) 2 ⟨0, 0, 0, 0, 0⟩ defaultRoute = .ok s ∧
        mappingFib tableSize s.fib (fun _ => 0#32) = .ok table ∧
        Decides s.fib 0x08080808 0 ⟨0, 0, 7⟩ ∧
        iplookupHost table (fun _ => 0x08080808) (fun _ => 0) 1 = .ok found ∧
        found 0 ≠ (7#8).zeroExtend 32 := by
  have line : LineOf defaultRoute ⟨0, 0, 0, 0, 0⟩ :=
    .cons zero_spells (by decide) (.cons zero_spells (by decide) (.cons zero_spells (by decide)
      (.cons zero_spells (by decide) (.last zero_spells))))
  refine ⟨.last line, _, _, _, rfl, rfl, ⟨rfl, by decide, ?_⟩, rfl, by decide⟩
  intro place other apart there
  cases place with
  | zero => exact absurd rfl apart
  | succ place =>
    have none : ([] : List Fib)[place]? = some other := there
    cases none

end TestPrograms.Iplookup
