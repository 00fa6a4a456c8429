import TestPrograms.Devmem.Pmem

/-! # `pmem` reads back what it wrote

Below 2^52 the frame of the installed entry is `f_pos / 4096`, so a call that does not
fault moves exactly the bytes from `f_pos` to the end of its page.  A process that seeks
before each read and advances by the returned length walks a range without gap or
overlap.
-/

namespace TestPrograms.Devmem

open TestPrograms.Foundations
open TestPrograms.Linux
open TestPrograms.Foundations.Memory

section

variable {k : Kernel} {memory : Memory} (found : k.Finds memory) {filp : File}
  (low : filp.fPos.toNat < 2 ^ 52)

include low

theorem windowAddr_fPos (shows : frame (pteVal memory k.pagedPte) = frame filp.fPos) :
    k.windowAddr memory (filp.fPos &&& 0xfff#64).toNat = filp.fPos.toNat := by
  rw [Kernel.windowAddr, shows, frame_of_lt low, toNat_and_lowMask]
  omega

include found

theorem pmemRead_spec (count : Nat) :
    pmemRead k filp count none memory =
      { ret := .ok (copyLen filp.fPos count)
        user := loadBytes
          (setPte memory k.pagedPte (windowEntry filp.fPos (pteVal memory k.pagedPte)))
          filp.fPos.toNat (copyLen filp.fPos count)
        memory := memory } := by
  rw [pmemRead_ok found (not_faults_none _), Kernel.loadWindow,
    windowAddr_fPos low (by simp)]

theorem pmemWrite_spec (buf : List Byte)
    (spared : filp.fPos.toNat / 4096 ≠ k.pagedPte / 4096) :
    pmemWrite k filp buf none memory =
      { ret := .ok (copyLen filp.fPos buf.length)
        user := []
        memory := storeBytes memory filp.fPos.toNat (buf.take (copyLen filp.fPos buf.length)) } := by
  have faultless := not_faults_none (copyLen filp.fPos buf.length)
  have stored := pmemWrite_stored found faultless (by rwa [frame_of_lt low])
  have place : frame filp.fPos * 4096 + filp.fPos.toNat % 4096 = filp.fPos.toNat := by
    rw [frame_of_lt low]
    omega
  rw [place] at stored
  rw [← stored, pmemWrite_ok found faultless]

end

/-! ## Seek and read over a range -/

/-- A process that seeks to each position, reads up to `count` bytes there and goes on
    behind them; what it got, byte by byte with the position. -/
def readRange (k : Kernel) (count : Nat → Nat) (stop : Nat) :
    Nat → Nat → File → Memory → Option (List (Nat × Byte) × Memory)
  | fuel, pos, filp, memory =>
    if stop ≤ pos then some ([], memory)
    else match fuel with
      | 0 => none
      | fuel + 1 =>
        let sought := (pmemLlseek filp (BitVec.ofNat 64 pos) .seekSet).1
        let done := pmemRead k sought (count pos) none memory
        match done.ret with
        | .error _ => none
        | .ok length =>
          (readRange k count stop fuel (pos + length) sought done.memory).map fun (rest, last) =>
            ((List.range' pos length).zip done.user ++ rest, last)

theorem zip_range'_loadBytes (memory : Memory) (start length : Nat) :
    (List.range' start length).zip (loadBytes memory start length) =
      (List.range' start length).map fun a => (a, memory a) := by
  induction length generalizing start with
  | zero => rfl
  | succ length ih => simp only [List.range'_succ, loadBytes, List.zip_cons_cons, ih, List.map_cons]

theorem readRange_covers {k : Kernel} {memory : Memory} (found : k.Finds memory)
    (count : Nat → Nat) {stop : Nat} (below : stop ≤ 2 ^ 52)
    (fuel pos : Nat) (enough : stop - pos ≤ fuel)
    (asks : ∀ p, pos ≤ p → p < stop → 1 ≤ count p ∧ count p ≤ stop - p) (filp : File) :
    ∃ log, readRange k count stop fuel pos filp memory = some (log, memory) ∧
      log.map Prod.fst = List.range' pos (stop - pos) ∧
      ∀ entry ∈ log, entry.1 < k.pagedPte ∨ k.pagedPte + 8 ≤ entry.1 →
        entry.2 = memory entry.1 := by
  -- every round takes the position on by a byte at least, which pays for its fuel
  induction fuel generalizing pos filp with
  | zero =>
    have done : stop ≤ pos := by omega
    exact ⟨[], by simp [readRange, done], by simp [show stop - pos = 0 by omega], by simp⟩
  | succ fuel ih =>
    by_cases done : stop ≤ pos
    · exact ⟨[], by simp [readRange, done], by simp [show stop - pos = 0 by omega], by simp⟩
    · obtain ⟨nonempty, within⟩ := asks pos (Nat.le_refl _) (by omega)
      have here : (BitVec.ofNat 64 pos).toNat = pos := by
        rw [BitVec.toNat_ofNat]
        omega
      -- a read that asks for a byte gets one, so the rest of the range is shorter
      have length := copyLen_eq (BitVec.ofNat 64 pos) (count pos)
      rw [here] at length
      have advances : 1 ≤ copyLen (BitVec.ofNat 64 pos) (count pos) := by omega
      have stays : copyLen (BitVec.ofNat 64 pos) (count pos) ≤ stop - pos := by omega
      let sought : File := { fPos := BitVec.ofNat 64 pos }
      have low : sought.fPos.toNat < 2 ^ 52 := by
        change (BitVec.ofNat 64 pos).toNat < 2 ^ 52
        omega
      have read := pmemRead_spec found low (count pos)
      simp only [sought, here] at read
      generalize copyLen (BitVec.ofNat 64 pos) (count pos) = got at *
      obtain ⟨rest, loops, positions, bytes⟩ := ih (pos + got) (by omega)
        (fun p after => asks p (by omega)) { fPos := BitVec.ofNat 64 pos }
      let shown := setPte memory k.pagedPte
        (windowEntry (BitVec.ofNat 64 pos) (pteVal memory k.pagedPte))
      refine ⟨(List.range' pos got).zip (loadBytes shown pos got) ++ rest, ?_, ?_, ?_⟩
      · simp only [readRange, done, if_false, pmemLlseek, read, loops, Option.map_some]
        rfl
      · -- the positions of this read and those of the rest stand side by side
        rw [zip_range'_loadBytes, List.map_append, positions, List.map_map]
        have tiles := List.range'_append_1 (s := pos) (m := got) (n := stop - (pos + got))
        rw [show got + (stop - (pos + got)) = stop - pos by omega] at tiles
        simpa [Function.comp_def] using tiles
      · intro entry member outside
        rw [zip_range'_loadBytes] at member
        cases List.mem_append.mp member with
        | inl first =>
          obtain ⟨a, _, rfl⟩ := List.mem_map.mp first
          exact setPte_frame _ _ _ _ outside
        | inr later => exact bytes entry later outside

/-- `pmem_write` stores exactly its bytes, and `pmem_read` gives exactly them back where the
    walk finds the entry again; a process that seeks and reads its way through a range gets
    every byte of it once, in order (the eight bytes of the entry itself show the entry the
    read installed). -/
theorem pmem_round_trip (k : Kernel) (memory : Memory) (found : k.Finds memory) :
    (∀ (filp : File) (data : List Byte), filp.fPos.toNat < 2 ^ 52 →
      filp.fPos.toNat / 4096 ≠ k.pagedPte / 4096 →
      let n := min data.length (4096 - filp.fPos.toNat % 4096)
      let written := pmemWrite k filp data none memory
      let back := pmemRead k filp data.length none written.memory
      written.ret = .ok n ∧
      loadBytes written.memory filp.fPos.toNat n = data.take n ∧
      (∀ a, a < filp.fPos.toNat ∨ filp.fPos.toNat + n ≤ a → written.memory a = memory a) ∧
      pteVal written.memory k.pagedPte = pteVal memory k.pagedPte ∧
      (k.Finds written.memory →
        back.ret = .ok n ∧ back.user = data.take n ∧ back.memory = written.memory) ∧
      (1 ≤ data.length → 1 ≤ n)) ∧
    (∀ (start stop : Nat) (count : Nat → Nat) (filp : File), stop ≤ 2 ^ 52 →
      (∀ p, start ≤ p → p < stop → 1 ≤ count p ∧ count p ≤ stop - p) →
      ∃ log, readRange k count stop (stop - start) start filp memory = some (log, memory) ∧
        log.map Prod.fst = List.range' start (stop - start) ∧
        ∀ entry ∈ log, entry.1 < k.pagedPte ∨ k.pagedPte + 8 ≤ entry.1 →
          entry.2 = memory entry.1) := by
  refine ⟨fun filp data low spared => ?_, fun start stop count filp below asks =>
    readRange_covers found count below _ _ (Nat.le_refl _) asks filp⟩
  have wrote := pmemWrite_spec found low data spared
  have length := copyLen_eq filp.fPos data.length
  have whole := length_take_copyLen filp.fPos data
  have aligned := k.aligned
  rw [wrote]
  simp only [← length, true_and]
  generalize taken : copyLen filp.fPos data.length = n at *
  have loaded := loadBytes_storeBytes memory filp.fPos.toNat (data.take n)
  rw [whole] at loaded
  have untouched : ∀ a, k.pagedPte ≤ a → a < k.pagedPte + 8 →
      storeBytes memory filp.fPos.toNat (data.take n) a = memory a :=
    fun a _ _ => storeBytes_frame _ _ _ _ (by omega)
  refine ⟨loaded, ?_, pteVal_congr untouched, fun again => ?_, ?_⟩
  · exact fun a outside => storeBytes_frame _ _ _ _ (by omega)
  · -- the read installs its own entry, but not in the page that was written
    rw [pmemRead_spec again low, taken]
    refine ⟨rfl, ?_, rfl⟩
    rw [← loaded]
    exact loadBytes_congr fun a _ _ => by
      rw [setPte_frame _ _ _ _ (by omega), loaded]
  · omega

/-- Five bytes written two bytes before the end of a page, and a range over three pages
    read in pieces of up to a hundred bytes. -/
theorem pmem_round_trip_sample :
    (let filp : File := { fPos := 0x200ffe#64 }
     let written := pmemWrite sampleKernel filp [1, 2, 3, 4, 5] none sampleMemory
     written.ret = .ok 2 ∧ loadBytes written.memory 0x200ffe 2 = [1, 2] ∧
       (pmemRead sampleKernel filp 5 none written.memory).user = [1, 2]) ∧
    ∃ log, readRange sampleKernel (fun p => min 100 (0x5001 - p)) 0x5001 (0x5001 - 0x2ff0) 0x2ff0
        { fPos := 0 } sampleMemory = some (log, sampleMemory) ∧
      log.map Prod.fst = List.range' 0x2ff0 (0x5001 - 0x2ff0) := by
  obtain ⟨transfers, ranges⟩ := pmem_round_trip sampleKernel sampleMemory sampleMemory_finds
  obtain ⟨ret, bytes, elsewhere, -, back, -⟩ := transfers { fPos := 0x200ffe#64 } [1, 2, 3, 4, 5]
    (by decide) (by decide)
  have again := back (sampleKernel_finds fun a _ high =>
    elsewhere a (.inl (Nat.lt_of_lt_of_le high (by decide))))
  obtain ⟨log, loops, positions, -⟩ := ranges 0x2ff0 0x5001 (fun p => min 100 (0x5001 - p))
    { fPos := 0 } (by decide) (fun p _ _ => by omega)
  exact ⟨⟨ret, bytes, again.2.1⟩, log, loops, positions⟩

end TestPrograms.Devmem
