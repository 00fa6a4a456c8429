import TestPrograms.Iplookup.LoadFib

/-! # The routes that are loaded

A line with octets up to 255 and a length up to 24 is stored as it reads.  The test looks at the
first octet and the length only, and at these from above only; nothing looks at the index.
-/

namespace TestPrograms.Iplookup

open TestPrograms.Foundations

def Octet (v : Word) : Prop := 0 ≤ v.toInt ∧ v.toInt ≤ 255

instance (v : Word) : Decidable (Octet v) := inferInstanceAs (Decidable (_ ∧ _))

/-- A line that is a route. -/
structure Vars.Valid (line : Vars) : Prop where
  ip1 : Octet line.ip1
  ip2 : Octet line.ip2
  ip3 : Octet line.ip3
  ip4 : Octet line.ip4
  subnet : 0 ≤ line.subnet.toInt ∧ line.subnet.toInt ≤ 24

theorem Vars.valid_iff (line : Vars) :
    line.Valid ↔ Octet line.ip1 ∧ Octet line.ip2 ∧ Octet line.ip3 ∧ Octet line.ip4 ∧
      0 ≤ line.subnet.toInt ∧ line.subnet.toInt ≤ 24 :=
  ⟨fun valid => ⟨valid.ip1, valid.ip2, valid.ip3, valid.ip4, valid.subnet⟩,
    fun ⟨ip1, ip2, ip3, ip4, subnet⟩ => ⟨ip1, ip2, ip3, ip4, subnet⟩⟩

instance (line : Vars) : Decidable line.Valid := decidable_of_iff _ line.valid_iff.symm

/-- The route of a line: its address and its length. -/
def Vars.route (line : Vars) : Word × BitVec 8 :=
  (BitVec.ofNat 32
      (line.ip1.toNat * 2 ^ 24 + line.ip2.toNat * 2 ^ 16 + line.ip3.toNat * 2 ^ 8 + line.ip4.toNat),
    BitVec.ofNat 8 line.subnet.toNat)

def Fib.route (entry : Fib) : Word × BitVec 8 := (entry.ip, entry.subnet)

/-! ## What a line is stored as -/

theorem toNat_of_toInt {v : Word} (low : 0 ≤ v.toInt) : (v.toNat : Int) = v.toInt := by
  have bound := v.isLt
  rw [BitVec.toInt_eq_toNat_cond] at low ⊢
  split <;> omega

theorem Octet.toNat_lt {v : Word} (octet : Octet v) : v.toNat < 256 := by
  have value := toNat_of_toInt octet.1
  have high := octet.2
  omega

theorem pack_toNat {a b c d : Word} (first : a.toNat < 256) (second : b.toNat < 256) (third : c.toNat < 256)
    (fourth : d.toNat < 256) :
    (a <<< 24 ||| b <<< 16 ||| c <<< 8 ||| d).toNat =
      a.toNat * 2 ^ 24 + b.toNat * 2 ^ 16 + c.toNat * 2 ^ 8 + d.toNat := by
  have shifted {v : Word} (small : v.toNat < 256) {n : Nat} (low : n ≤ 24) :
      (v <<< n).toNat = v.toNat <<< n := by
    have power : 2 ^ n ≤ 2 ^ 24 := Nat.pow_le_pow_right (by decide) low
    have bound : v.toNat * 2 ^ n < 2 ^ 32 := calc
      v.toNat * 2 ^ n < 256 * 2 ^ 24 := Nat.mul_lt_mul_of_lt_of_le small power (by decide)
      _ = 2 ^ 32 := by decide
    rw [BitVec.toNat_shiftLeft, Nat.shiftLeft_eq, Nat.mod_eq_of_lt bound]
  have joined {i x y : Nat} (small : y < 2 ^ i) : x <<< i ||| y = x * 2 ^ i + y := by
    rw [← Nat.shiftLeft_add_eq_or_of_lt small, Nat.shiftLeft_eq]
  rw [BitVec.or_assoc, BitVec.or_assoc, BitVec.toNat_or, BitVec.toNat_or, BitVec.toNat_or,
    shifted first (by decide), shifted second (by decide), shifted third (by decide),
    joined (show d.toNat < 2 ^ 8 from fourth),
    joined (show c.toNat * 2 ^ 8 + d.toNat < 2 ^ 16 by omega),
    joined (show b.toNat * 2 ^ 16 + (c.toNat * 2 ^ 8 + d.toNat) < 2 ^ 24 by omega)]
  omega

theorem Vars.Valid.entry_route {line : Vars} (valid : line.Valid) (rand : Word) :
    (line.entry rand).route = line.route := by
  have address := pack_toNat valid.ip1.toNat_lt valid.ip2.toNat_lt valid.ip3.toNat_lt valid.ip4.toNat_lt
  have low : line.subnet.setWidth 8 = BitVec.ofNat 8 line.subnet.toNat := rfl
  have whole : (line.entry rand).ip = BitVec.ofNat 32 (line.entry rand).ip.toNat := by
    rw [BitVec.ofNat_toNat, BitVec.setWidth_eq]
  rw [Fib.route, Vars.route, whole]
  simp only [Vars.entry, address, low]

theorem Vars.Valid.not_skipped {line : Vars} (valid : line.Valid) : ¬ line.Skipped := by
  have first := valid.ip1.2
  have length := valid.subnet.2
  rintro (above | above) <;> omega

/-! ## What a file is stored as -/

section

variable (rand : Nat → Word) (vars : Vars) {text : List Char} {lines : List Vars}

theorem storesOf_routes (lines : List Vars) :
    ((storesOf rand 0 lines).map Prod.snd).map Fib.route =
      (lines.filter fun line => ¬ line.Skipped).map fun line => (line.entry 0).route := by
  -- the gateway is no part of the route
  have kept : (Fib.route ∘ Prod.snd) ∘ storeOf rand =
      (fun line : Vars => (line.entry 0).route) ∘ Prod.fst := rfl
  rw [storesOf, List.map_map, List.map_map, kept, ← List.map_map, List.zipIdx_map_fst]

theorem storesOf_index (lines : List Vars) :
    (storesOf rand 0 lines).map Prod.fst = List.range (lines.filter fun line => ¬ line.Skipped).length := by
  have kept : Prod.fst ∘ storeOf rand = Prod.snd := rfl
  rw [storesOf, List.map_map, kept, List.zipIdx_map_snd, List.range_eq_range']

theorem storesOf_inside_iff (lines : List Vars) :
    (∀ store ∈ storesOf rand 0 lines, store.1 < maxRoutingTable) ↔
      (lines.filter fun line => ¬ line.Skipped).length ≤ maxRoutingTable := by
  have positions : (∀ store ∈ storesOf rand 0 lines, store.1 < maxRoutingTable) ↔
      ∀ k ∈ List.range (lines.filter fun line => ¬ line.Skipped).length, k < maxRoutingTable := by
    rw [← storesOf_index rand lines, List.forall_mem_map]
  simp only [positions, List.mem_range]
  constructor
  · intro inside
    by_contra more
    exact Nat.lt_irrefl _ (inside maxRoutingTable (by omega))
  · intro few k below
    omega

/-- The entries stored are the lines that are routes, as they read, if and only if every line that
    passes the test is one. -/
theorem routes_loaded_iff (file : FileOf text lines) :
    (∃ s, loadFib rand (lines.length + 1) vars text = .ok s ∧
        s.fib.map Fib.route = (lines.filter fun line => line.Valid).map Vars.route) ↔
      ∀ line ∈ lines, ¬ line.Skipped → line.Valid := by
  obtain ⟨s, ends, stores⟩ := loadFib_file rand file vars
  have fib : s.fib.map Fib.route =
      (lines.filter fun line => ¬ line.Skipped).map fun line => (line.entry 0).route := by
    rw [Loader.fib, stores, storesOf_routes]
  have valid : (lines.filter fun line => line.Valid) =
      (lines.filter fun line => ¬ line.Skipped).filter fun line => line.Valid := by
    rw [List.filter_filter]
    refine List.filter_congr fun line _ => ?_
    rw [← Bool.decide_and]
    exact decide_eq_decide.mpr ⟨fun valid => ⟨valid, valid.not_skipped⟩, And.left⟩
  constructor
  · rintro ⟨s', ends', same⟩ line member passes
    obtain rfl := Except.ok.inj (ends.symm.trans ends')
    -- no fewer routes than lines that pass
    have all := congrArg List.length (fib.symm.trans same)
    rw [List.length_map, List.length_map, valid, eq_comm, List.length_filter_eq_length_iff] at all
    exact of_decide_eq_true (all line (List.mem_filter.mpr ⟨member, decide_eq_true passes⟩))
  · intro all
    refine ⟨s, ends, fib.trans ?_⟩
    have same : (lines.filter fun line => ¬ line.Skipped) = lines.filter fun line => line.Valid :=
      List.filter_congr fun line member =>
        decide_eq_decide.mpr ⟨all line member, Vars.Valid.not_skipped⟩
    rw [same]
    refine List.map_congr_left fun line member => ?_
    exact (of_decide_eq_true (List.mem_filter.mp member).2).entry_route 0

/-- Every store is inside the table exactly if no more lines pass the test than it has entries. -/
theorem stores_inside_iff (file : FileOf text lines) :
    ∃ s, loadFib rand (lines.length + 1) vars text = .ok s ∧
      ((∀ store ∈ s.stores, store.1 < maxRoutingTable) ↔
        (lines.filter fun line => ¬ line.Skipped).length ≤ maxRoutingTable) := by
  obtain ⟨s, ends, stores⟩ := loadFib_file rand file vars
  refine ⟨s, ends, ?_⟩
  rw [stores, storesOf_inside_iff]

end

/-! ## Files that are loaded otherwise -/

def slashEight (octet : List Char) : List Char := ['1', '0', '.'] ++ octet ++ ['.', '0', '.', '0', '/', '8']

theorem numeral_spells {digits : List Char} {v : Word} (numeral : digits ≠ [] ∧ digits.all Char.isDigit)
    (value : (Nat.ofDigitChars 10 digits 0 : Int) = v.toInt) : Scanf.Spells digits v :=
  .plain ⟨numeral.1, List.all_eq_true.mp numeral.2⟩ value

theorem zero_spells : Scanf.Spells ['0'] 0 := numeral_spells (by decide) (by decide)

theorem slashEight_lineOf {octet : List Char} {v : Word} (spells : Scanf.Spells octet v) :
    LineOf (slashEight octet) { ip1 := 10, ip2 := v, ip3 := 0, ip4 := 0, subnet := 8 } := by
  have ten : Scanf.Spells ['1', '0'] 10 := numeral_spells (by decide) (by decide)
  have eight : Scanf.Spells ['8'] 8 := numeral_spells (by decide) (by decide)
  have line : Scanf.SpellsAll separators (['1', '0'] ++ '.' :: (octet ++ '.' :: ['0', '.', '0', '/', '8']))
      [10, v, 0, 0, 8] :=
    .cons ten (by decide) (.cons spells (by decide)
      (.cons zero_spells (by decide) (.cons zero_spells (by decide) (.last eight))))
  rw [slashEight, List.append_assoc]
  exact line

theorem FileOf.replicate {text : List Char} {line : Vars} (spells : LineOf text line) (count : Nat) :
    FileOf (List.replicate count (text ++ ['\n'])).flatten (List.replicate count line) := by
  induction count with
  | zero => exact .nil
  | succ count ih =>
    rw [List.replicate_succ, List.replicate_succ, List.flatten_cons, List.append_assoc]
    exact .cons spells ih

theorem routes_loaded_sample :
    (∃ s, loadFib (fun _ => 7) 2 ⟨0, 0, 0, 0, 0⟩ (slashEight ['0']) = .ok s ∧
        s.fib.map Fib.route = ([⟨10, 0, 0, 0, 8⟩].filter fun line : Vars => line.Valid).map Vars.route) ↔
      ∀ line ∈ [(⟨10, 0, 0, 0, 8⟩ : Vars)], ¬ line.Skipped → line.Valid :=
  routes_loaded_iff _ _ (.last (slashEight_lineOf zero_spells))

/-- `10.256.0.0/8` is loaded as `11.0.0.0/8`. -/
theorem octet_carried :
    FileOf (slashEight ['2', '5', '6']) [⟨10, 256, 0, 0, 8⟩] ∧
      (∃ s, loadFib (fun _ => 7) 2 ⟨0, 0, 0, 0, 0⟩ (slashEight ['2', '5', '6']) = .ok s ∧
        s.fib.map Fib.route = [(0x0b000000, 8)]) ∧
      ¬ ∃ s, loadFib (fun _ => 7) 2 ⟨0, 0, 0, 0, 0⟩ (slashEight ['2', '5', '6']) = .ok s ∧
        s.fib.map Fib.route = ([⟨10, 256, 0, 0, 8⟩].filter fun line : Vars => line.Valid).map Vars.route := by
  have loaded : ∃ s, loadFib (fun _ => 7) 2 ⟨0, 0, 0, 0, 0⟩ (slashEight ['2', '5', '6']) = .ok s ∧
      s.fib.map Fib.route = [(0x0b000000, 8)] := ⟨_, rfl, by decide⟩
  refine ⟨.last (slashEight_lineOf (numeral_spells (by decide) (by decide))), loaded, ?_⟩
  rintro ⟨s', ends', same⟩
  obtain ⟨s, ends, carried⟩ := loaded
  obtain rfl := Except.ok.inj (ends.symm.trans ends')
  rw [carried] at same
  exact absurd same (by decide)

theorem stores_inside_sample :
    ∃ s, loadFib (fun _ => 7) 2 ⟨0, 0, 0, 0, 0⟩ (slashEight ['0']) = .ok s ∧
      ((∀ store ∈ s.stores, store.1 < maxRoutingTable) ↔
        ([⟨10, 0, 0, 0, 8⟩].filter fun line : Vars => ¬ line.Skipped).length ≤ maxRoutingTable) :=
  stores_inside_iff _ _ (.last (slashEight_lineOf zero_spells))

/-- One route too many. -/
theorem store_past_table :
    ∃ s, loadFib (fun _ => 7) (maxRoutingTable + 2) ⟨0, 0, 0, 0, 0⟩
        (List.replicate (maxRoutingTable + 1) (slashEight ['0'] ++ ['\n'])).flatten = .ok s ∧
      ¬ ∀ store ∈ s.stores, store.1 < maxRoutingTable := by
  obtain ⟨s, ends, stores⟩ := loadFib_file (fun _ => 7)
    (FileOf.replicate (slashEight_lineOf zero_spells) (maxRoutingTable + 1)) ⟨0, 0, 0, 0, 0⟩
  rw [List.length_replicate] at ends
  refine ⟨s, ends, ?_⟩
  rw [stores, storesOf_inside_iff, List.filter_replicate_of_pos (by decide), List.length_replicate]
  omega

end TestPrograms.Iplookup
