import TestPrograms.Devmem.Pmem
import TestPrograms.Foundations.Runs

/-! # A processor that caches translations

The drivers change the entry of `paged_buf` and never invalidate a translation.  On a
processor with a TLB an access through the window may then go to the frame that the entry
holds or to any frame that an access has gone to before.
-/

namespace TestPrograms.Devmem

open TestPrograms.Foundations
open TestPrograms.Foundations.Memory
open TestPrograms.Linux

/-- Which of the cached translations the access at an offset of the page uses, if any. -/
abbrev Picks := Nat → Option Nat

/-- The frames of the accesses so far, the last one first, and memory. -/
structure Cached where
  memory : Memory
  frames : List Nat

/-- The frame that an access goes to. -/
def Kernel.translate (k : Kernel) (s : Cached) (pick : Option Nat) : Nat :=
  (pick.bind fun i => s.frames[i]?).getD (frame (pteVal s.memory k.pagedPte))

def Kernel.loadCached (k : Kernel) (picks : Picks) (s : Cached) (offset : Nat) : Nat → List Byte × Cached
  | 0 => ([], s)
  | count + 1 =>
    let f := k.translate s (picks offset)
    let (bytes, last) :=
      k.loadCached picks { s with frames := f :: s.frames } (offset + 1) count
    (s.memory (f * 4096 + offset) :: bytes, last)

def Kernel.storeCached (k : Kernel) (picks : Picks) (s : Cached) (offset : Nat) : List Byte → Cached
  | [] => s
  | byte :: bytes =>
    let f := k.translate s (picks offset)
    k.storeCached picks
      { memory := Function.update s.memory (f * 4096 + offset) byte, frames := f :: s.frames }
      (offset + 1) bytes

/-- `pmem_read` on this processor, with a copy to the user that succeeds. -/
def pmemReadCached (k : Kernel) (filp : File) (count : Nat) (picks : Picks) (s : Cached) :
    Except Errno Nat × List Byte × Cached :=
  let copyLen := copyLen filp.fPos count
  let pte := k.getPte s.memory k.pagedBuf
  let installed := match pte with
    | some pte => { s with memory := setPte s.memory pte (windowEntry filp.fPos (pteVal s.memory pte)) }
    | none => s
  let (user, loaded) := k.loadCached picks installed (filp.fPos &&& 0xfff#64).toNat copyLen
  let restored := match pte with
    | some pte => { loaded with memory := setPte loaded.memory pte (pteVal s.memory pte) }
    | none => loaded
  (.ok copyLen, user, restored)

/-- `pmem_write`, with a copy from the user that succeeds. -/
def pmemWriteCached (k : Kernel) (filp : File) (buf : List Byte) (picks : Picks) (s : Cached) :
    Except Errno Nat × List Byte × Cached :=
  let copyLen := copyLen filp.fPos buf.length
  let pte := k.getPte s.memory k.pagedBuf
  let installed := match pte with
    | some pte =>
      { s with memory := setPte s.memory pte (windowEntry filp.fPos (pteVal s.memory pte) ||| pageRw) }
    | none => s
  let stored := k.storeCached picks installed (filp.fPos &&& 0xfff#64).toNat (buf.take copyLen)
  let restored := match pte with
    | some pte => { stored with memory := setPte stored.memory pte (pteVal s.memory pte) }
    | none => stored
  (.ok copyLen, [], restored)

def callCached (k : Kernel) (s : Cached) : PmemCall × Picks → Except Errno Nat × List Byte × Cached
  | (.read filp count, picks) => pmemReadCached k filp count picks s
  | (.write filp buf, picks) => pmemWriteCached k filp buf picks s

def stepCached (k : Kernel) (s : Cached) (action : PmemCall × Picks) : Except Oops Cached :=
  .ok (callCached k s action).2.2

/-- The call ends as without a TLB and all its accesses go to the frame it is for. -/
def AsPlain (k : Kernel) (s : Cached) (action : PmemCall × Picks) : Prop :=
  let (ret, user, next) := callCached k s action
  callPlain k s.memory action.1 = { ret, user, memory := next.memory } ∧
    ∃ accessed, next.frames = accessed ++ s.frames ∧ ∀ f ∈ accessed, f = action.1.frame

/-! ## While all accesses go to one frame -/

section

variable {k : Kernel} {picks : Picks} {f : Nat}

theorem Kernel.translate_eq {s : Cached} (cached : ∀ g ∈ s.frames, g = f)
    (shown : frame (pteVal s.memory k.pagedPte) = f) (pick : Option Nat) : k.translate s pick = f := by
  rw [translate, shown]
  cases found : pick.bind fun i => s.frames[i]? with
  | none => rfl
  | some g =>
    obtain ⟨i, -, there⟩ := Option.bind_eq_some_iff.mp found
    exact cached g (List.mem_of_getElem? there)

theorem replicate_append_cons (count : Nat) (frames : List Nat) :
    List.replicate count f ++ f :: frames = List.replicate (count + 1) f ++ frames := by
  rw [List.append_cons, ← List.replicate_succ']

theorem Kernel.loadCached_eq (picks : Picks) (s : Cached) (offset count : Nat)
    (cached : 0 < count → ∀ g ∈ s.frames, g = f) (shown : frame (pteVal s.memory k.pagedPte) = f) :
    k.loadCached picks s offset count = (k.loadWindow s.memory offset count,
      { s with frames := List.replicate count f ++ s.frames }) := by
  induction count generalizing s offset with
  | zero => rfl
  | succ count ih =>
    have same := cached (Nat.succ_pos _)
    have more : ∀ g ∈ f :: s.frames, g = f := by simpa using same
    rw [loadCached, k.translate_eq same shown,
      ih { s with frames := f :: s.frames } _ (fun _ => more) shown]
    simp only [loadWindow, windowAddr, shown, loadBytes, replicate_append_cons, Nat.add_assoc]

theorem Kernel.storeCached_eq (picks : Picks) (s : Cached) (offset : Nat) (bytes : List Byte)
    (cached : 0 < bytes.length → ∀ g ∈ s.frames, g = f)
    (shown : frame (pteVal s.memory k.pagedPte) = f)
    (spared : f * 4096 + offset + bytes.length ≤ k.pagedPte ∨ k.pagedPte + 8 ≤ f * 4096 + offset) :
    k.storeCached picks s offset bytes =
      { memory := k.storeWindow s.memory offset bytes
        frames := List.replicate bytes.length f ++ s.frames } := by
  induction bytes generalizing s offset with
  | nil => rfl
  | cons byte bytes ih =>
    have same := cached (Nat.succ_pos _)
    have more : ∀ g ∈ f :: s.frames, g = f := by simpa using same
    simp only [List.length_cons] at spared
    have kept : pteVal (Function.update s.memory (f * 4096 + offset) byte) k.pagedPte =
        pteVal s.memory k.pagedPte := pteVal_update s.memory (by omega) byte
    rw [storeCached, k.translate_eq same shown,
      ih ⟨Function.update s.memory (f * 4096 + offset) byte, f :: s.frames⟩ _ (fun _ => more)
        (by rw [kept, shown]) (by omega)]
    simp only [storeWindow, windowAddr, shown, List.length_cons, replicate_append_cons]

variable {s : Cached} (found : k.Finds s.memory)

include found

theorem pmemReadCached_eq {filp : File} {count : Nat}
    (cached : 0 < copyLen filp.fPos count → ∀ g ∈ s.frames, g = frame filp.fPos) :
    pmemReadCached k filp count picks s =
      let done := pmemRead k filp count none s.memory
      (done.ret, done.user, { memory := done.memory
                              frames := List.replicate (copyLen filp.fPos count) (frame filp.fPos) ++
                                s.frames }) := by
  have loads := k.loadCached_eq picks
    { s with memory := setPte s.memory k.pagedPte (windowEntry filp.fPos (pteVal s.memory k.pagedPte)) }
    (filp.fPos &&& 0xfff#64).toNat _ cached (by rw [pteVal_setPte, frame_windowEntry])
  rw [pmemRead_ok found (not_faults_none _), pmemReadCached]
  have pte : k.getPte s.memory k.pagedBuf = some k.pagedPte := found
  simp only [pte, loads, setPte_setPte, setPte_pteVal]

theorem pmemWriteCached_eq {filp : File} {buf : List Byte}
    (cached : 0 < copyLen filp.fPos buf.length → ∀ g ∈ s.frames, g = frame filp.fPos)
    (spared : (PmemCall.write filp buf).Spares k) :
    pmemWriteCached k filp buf picks s =
      let done := pmemWrite k filp buf none s.memory
      (done.ret, done.user, { memory := done.memory
                              frames := List.replicate (copyLen filp.fPos buf.length) (frame filp.fPos) ++
                                s.frames }) := by
  have length := length_take_copyLen filp.fPos buf
  have stores := k.storeCached_eq picks
    { s with memory := setPte s.memory k.pagedPte (writeEntry filp.fPos (pteVal s.memory k.pagedPte)) }
    (filp.fPos &&& 0xfff#64).toNat (buf.take (copyLen filp.fPos buf.length)) (by rwa [length])
    (by rw [pteVal_setPte, frame_writeEntry]) (by rwa [length, toNat_and_lowMask])
  rw [length] at stores
  rw [pmemWrite_ok found (not_faults_none _), pmemWriteCached]
  unfold writeEntry at stores ⊢
  have pte : k.getPte s.memory k.pagedBuf = some k.pagedPte := found
  simp only [pte, stores]

/-- A call is as without a TLB if the accesses before it have gone to its own frame or it makes
    none; it adds accesses to its own frame. -/
theorem callCached_eq (call : PmemCall)
    (cached : call.Moves → ∀ g ∈ s.frames, g = call.frame)
    (spared : call.writes → call.Spares k) :
    callCached k s (call, picks) =
      let done := callPlain k s.memory call
      (done.ret, done.user, { memory := done.memory
                              frames := List.replicate (copyLen call.filp.fPos call.count) call.frame ++
                                s.frames }) := by
  cases call with
  | read filp count => exact pmemReadCached_eq found cached
  | write filp buf => exact pmemWriteCached_eq found cached (spared rfl)

theorem asPlain_of_cached (call : PmemCall)
    (cached : call.Moves → ∀ g ∈ s.frames, g = call.frame)
    (spared : call.writes → call.Spares k) : AsPlain k s (call, picks) := by
  unfold AsPlain
  rw [callCached_eq found call cached spared]
  exact ⟨rfl, _, rfl, fun _ member => List.eq_of_mem_replicate member⟩

omit found

/-! ## Runs -/

/-- The run without a TLB finds the entry at each call. -/
theorem along_asPlain {page : Nat} {actions : List (PmemCall × Picks)}
    (finds : Along (plainStep k) (fun memory _ => k.Finds memory) s.memory (actions.map Prod.fst))
    (cached : ∀ g ∈ s.frames, g = page)
    (onePage : ∀ action ∈ actions, action.1.Moves → action.1.frame = page)
    (spared : ∀ action ∈ actions, action.1.writes → action.1.Spares k) :
    Along (stepCached k) (AsPlain k) s actions := by
  induction actions generalizing s with
  | nil => trivial
  | cons action actions ih =>
    obtain ⟨call, picks⟩ := action
    have own : call.Moves → ∀ g ∈ s.frames, g = call.frame := fun moves g member =>
      (cached g member).trans (onePage (call, picks) List.mem_cons_self moves).symm
    have spares := spared (call, picks) List.mem_cons_self
    obtain ⟨found, later⟩ := finds
    refine ⟨asPlain_of_cached found call own spares, fun next steps => ?_⟩
    cases steps
    refine ih ?_ ?_ (fun later member => onePage later (List.mem_cons_of_mem _ member))
      (fun later member => spared later (List.mem_cons_of_mem _ member))
    · rw [callCached_eq found call own spares]
      exact later _ rfl
    rw [callCached_eq found call own spares]
    intro g member
    cases List.mem_append.mp member with
    | inl new =>
      obtain ⟨count, same⟩ := List.mem_replicate.mp new
      exact same.trans (onePage (call, picks) List.mem_cons_self (Nat.pos_of_ne_zero count))
    | inr old => exact cached g old

end

/-! ## The accesses of a call -/

section

variable {k : Kernel}

theorem Kernel.loadCached_frames (k : Kernel) (picks : Picks) (s : Cached) (offset count : Nat) :
    ∃ accessed, (k.loadCached picks s offset count).2.frames = accessed ++ s.frames ∧
      accessed.length = count ∧
      (0 < count → accessed.getLast? = some (k.translate s (picks offset))) := by
  induction count generalizing s offset with
  | zero => exact ⟨[], rfl, rfl, fun positive => absurd positive (Nat.lt_irrefl 0)⟩
  | succ count ih =>
    obtain ⟨accessed, frames, length, -⟩ :=
      ih { s with frames := k.translate s (picks offset) :: s.frames } (offset + 1)
    refine ⟨accessed ++ [k.translate s (picks offset)], ?_, ?_, fun _ => List.getLast?_concat⟩
    · rw [loadCached, List.append_assoc]
      exact frames
    · rw [List.length_append, length, List.length_singleton]

theorem Kernel.storeCached_frames (k : Kernel) (picks : Picks) (s : Cached) (offset : Nat)
    (bytes : List Byte) :
    ∃ accessed, (k.storeCached picks s offset bytes).frames = accessed ++ s.frames ∧
      accessed.length = bytes.length ∧
      (0 < bytes.length → accessed.getLast? = some (k.translate s (picks offset))) := by
  induction bytes generalizing s offset with
  | nil => exact ⟨[], rfl, rfl, fun positive => absurd positive (Nat.lt_irrefl 0)⟩
  | cons byte bytes ih =>
    obtain ⟨accessed, frames, length, -⟩ := ih
      { memory := Function.update s.memory (k.translate s (picks offset) * 4096 + offset) byte
        frames := k.translate s (picks offset) :: s.frames } (offset + 1)
    refine ⟨accessed ++ [k.translate s (picks offset)], ?_, ?_, fun _ => List.getLast?_concat⟩
    · rw [storeCached, List.append_assoc]
      exact frames
    · rw [List.length_append, length, List.length_singleton, List.length_cons]

/-- A call makes one access for each byte, the first one with the cache as it finds it. -/
theorem callCached_frames (call : PmemCall) (pick : Option Nat) (s : Cached) :
    ∃ accessed installed, (callCached k s (call, fun _ => pick)).2.2.frames = accessed ++ s.frames ∧
      accessed.length = copyLen call.filp.fPos call.count ∧ installed.frames = s.frames ∧
      (call.Moves → accessed.getLast? = some (k.translate installed pick)) := by
  cases call with
  | read filp count =>
    cases pte : k.getPte s.memory k.pagedBuf with
    | none =>
      obtain ⟨accessed, frames, length, first⟩ := k.loadCached_frames (fun _ => pick) s
        (filp.fPos &&& 0xfff#64).toNat (copyLen filp.fPos count)
      refine ⟨accessed, s, ?_, length, rfl, first⟩
      simpa only [callCached, pmemReadCached, pte] using frames
    | some pte' =>
      let installed : Cached :=
        { s with memory := setPte s.memory pte' (windowEntry filp.fPos (pteVal s.memory pte')) }
      obtain ⟨accessed, frames, length, first⟩ := k.loadCached_frames (fun _ => pick) installed
        (filp.fPos &&& 0xfff#64).toNat (copyLen filp.fPos count)
      refine ⟨accessed, installed, ?_, length, rfl, first⟩
      simpa only [callCached, pmemReadCached, pte] using frames
  | write filp buf =>
    have taken := length_take_copyLen filp.fPos buf
    cases pte : k.getPte s.memory k.pagedBuf with
    | none =>
      obtain ⟨accessed, frames, length, first⟩ := k.storeCached_frames (fun _ => pick) s
        (filp.fPos &&& 0xfff#64).toNat (buf.take (copyLen filp.fPos buf.length))
      rw [taken] at length first
      refine ⟨accessed, s, ?_, length, rfl, first⟩
      simpa only [callCached, pmemWriteCached, pte] using frames
    | some pte' =>
      let installed : Cached := { s with
        memory := setPte s.memory pte' (windowEntry filp.fPos (pteVal s.memory pte') ||| pageRw) }
      obtain ⟨accessed, frames, length, first⟩ := k.storeCached_frames (fun _ => pick) installed
        (filp.fPos &&& 0xfff#64).toNat (buf.take (copyLen filp.fPos buf.length))
      rw [taken] at length first
      refine ⟨accessed, installed, ?_, length, rfl, first⟩
      simpa only [callCached, pmemWriteCached, pte] using frames

theorem Kernel.translate_pick (k : Kernel) {s : Cached} {i f : Nat} (there : s.frames[i]? = some f) :
    k.translate s (some i) = f := by
  simp [translate, there]

/-- The first access of a call that is as without a TLB goes to the call's own frame. -/
theorem first_own {s : Cached} {call : PmemCall} {pick : Option Nat} (moves : call.Moves)
    (asPlain : AsPlain k s (call, fun _ => pick)) :
    ∃ installed : Cached, installed.frames = s.frames ∧ k.translate installed pick = call.frame ∧
      call.frame ∈ (callCached k s (call, fun _ => pick)).2.2.frames := by
  obtain ⟨accessed, installed, frames, -, same, first⟩ := callCached_frames (k := k) call pick s
  obtain ⟨-, own, added, all⟩ := asPlain
  have first := List.mem_of_getLast? (first moves)
  obtain rfl : own = accessed := List.append_cancel_right (added.symm.trans frames)
  have translates := all _ first
  refine ⟨installed, same, translates, ?_⟩
  rw [frames, ← translates]
  exact List.mem_append_left _ first

theorem frames_kept {s : Cached} {f : Nat} (call : PmemCall) (there : f ∈ s.frames) :
    f ∈ (callCached k s (call, fun _ => none)).2.2.frames := by
  obtain ⟨accessed, _, frames, -⟩ := callCached_frames (k := k) call none s
  rw [frames]
  exact List.mem_append_right _ there

/-- Once an access has gone to `page`, a call for another page can be led there. -/
theorem onePage_of_asPlain {page : Nat} {calls : List PmemCall} {s : Cached} (there : page ∈ s.frames)
    (asPlain : ∀ actions : List (PmemCall × Picks), actions.map Prod.fst = calls →
      Along (stepCached k) (AsPlain k) s actions) :
    ∀ call ∈ calls, call.Moves → call.frame = page := by
  induction calls generalizing s with
  | nil => exact fun call member => nomatch member
  | cons call calls ih =>
    intro other member moves
    cases List.mem_cons.mp member with
    | inl same =>
      subst same
      -- the cached translation serves the first access
      obtain ⟨i, at'⟩ := List.mem_iff_getElem?.mp there
      have along := asPlain ((other, fun _ => some i) :: calls.map fun call => (call, fun _ => none))
        (by simp [Function.comp_def])
      obtain ⟨installed, frames, translates, -⟩ := first_own moves along.1
      rw [← translates]
      exact k.translate_pick (frames ▸ at')
    | inr later =>
      refine ih (frames_kept (k := k) call there) (fun actions calls' => ?_) other later moves
      exact (asPlain ((call, fun _ => none) :: actions) (by simp [calls'])).2 _ rfl

theorem onePage_of_start {calls : List PmemCall} {s : Cached}
    (asPlain : ∀ actions : List (PmemCall × Picks), actions.map Prod.fst = calls →
      Along (stepCached k) (AsPlain k) s actions) :
    ∃ page, ∀ call ∈ calls, call.Moves → call.frame = page := by
  induction calls generalizing s with
  | nil => exact ⟨0, fun call member => nomatch member⟩
  | cons call calls ih =>
    have rest : ∀ actions : List (PmemCall × Picks), actions.map Prod.fst = calls →
        Along (stepCached k) (AsPlain k) (callCached k s (call, fun _ => none)).2.2 actions :=
      fun actions calls' => (asPlain ((call, fun _ => none) :: actions) (by simp [calls'])).2 _ rfl
    by_cases moves : call.Moves
    · -- the first call that makes an access fixes the page
      have along := asPlain ((call, fun _ => none) :: calls.map fun call => (call, fun _ => none))
        (by simp [Function.comp_def])
      obtain ⟨_, -, -, there⟩ := first_own moves along.1
      refine ⟨call.frame, fun other member moves => ?_⟩
      cases List.mem_cons.mp member with
      | inl same => rw [same]
      | inr later => exact onePage_of_asPlain there rest other later moves
    · obtain ⟨page, all⟩ := ih rest
      refine ⟨page, fun other member moved => ?_⟩
      cases List.mem_cons.mp member with
      | inl same => exact absurd (same ▸ moved) moves
      | inr later => exact all other later moved

/-- In a sequence of calls that starts with an empty TLB, and in which the walk finds the entry
    at each call, every call is as without one whatever translations the processor uses, if and
    only if the calls that move any byte are all for one page. -/
theorem tlb_harmless_iff (memory : Memory) {calls : List PmemCall}
    (finds : Along (plainStep k) (fun memory _ => k.Finds memory) memory calls)
    (spared : ∀ call ∈ calls, call.writes → call.Spares k) :
    (∀ actions : List (PmemCall × Picks), actions.map Prod.fst = calls →
      Along (stepCached k) (AsPlain k) { memory, frames := [] } actions) ↔
    ∃ page, ∀ call ∈ calls, call.Moves → call.frame = page := by
  refine ⟨onePage_of_start, fun onePage actions same => ?_⟩
  obtain ⟨page, all⟩ := onePage
  subst same
  exact along_asPlain finds (fun _ member => nomatch member)
    (fun action member => all action.1 (List.mem_map_of_mem member))
    (fun action member => spared action.1 (List.mem_map_of_mem member))

end

/-! ## Two pages -/

def twoPages : Memory := Function.update (Function.update sampleMemory 0x200000 0x11#8) 0x300000 0x22#8

theorem twoPages_finds : sampleKernel.Finds twoPages := by
  refine sampleKernel_finds fun a _ high => ?_
  rw [twoPages, Function.update_of_ne (by omega), Function.update_of_ne (by omega)]

/-- A read of one byte that uses a cached translation gets the byte of that frame. -/
theorem pmemReadCached_stale {k : Kernel} {s : Cached} (found : k.Finds s.memory) (filp : File) {i f : Nat}
    (there : s.frames[i]? = some f) :
    (pmemReadCached k filp 1 (fun _ => some i) s).1 = .ok 1 ∧
      (pmemReadCached k filp 1 (fun _ => some i) s).2.1 =
        [setPte s.memory k.pagedPte (windowEntry filp.fPos (pteVal s.memory k.pagedPte))
          (f * 4096 + (filp.fPos &&& 0xfff#64).toNat)] := by
  have pte : k.getPte s.memory k.pagedBuf = some k.pagedPte := found
  have length : copyLen filp.fPos 1 = 1 := by
    rw [copyLen_eq]
    omega
  simp only [pmemReadCached, pte, length, Kernel.loadCached, Kernel.translate, there, Option.bind_some,
    Option.getD_some, and_self]

theorem twoPages_first (pick : Option Nat) :
    (callCached sampleKernel { memory := twoPages, frames := [] }
      (.read { fPos := 0x200000#64 } 1, fun _ => pick)).2.2 = { memory := twoPages, frames := [0x200] } := by
  rw [callCached_eq twoPages_finds _ (fun _ => by simp) (fun writes => by cases writes), callPlain,
    pmemRead_ok twoPages_finds (not_faults_none _)]
  rfl

/-- The second read of one byte uses the translation that the first has left, and gets its byte. -/
theorem stale_read :
    let first := callCached sampleKernel { memory := twoPages, frames := [] }
      (.read { fPos := 0x200000#64 } 1, fun _ => none)
    let second := callCached sampleKernel first.2.2
      (.read { fPos := 0x300000#64 } 1, fun _ => some 0)
    second.1 = .ok 1 ∧ second.2.1 = [0x11#8] ∧ loadBytes first.2.2.memory 0x300000 1 = [0x22#8] := by
  dsimp only
  rw [twoPages_first]
  obtain ⟨returns, stale⟩ := pmemReadCached_stale (k := sampleKernel)
    (s := { memory := twoPages, frames := [0x200] }) twoPages_finds { fPos := 0x300000#64 }
    (i := 0) (f := 0x200) rfl
  refine ⟨returns, stale.trans ?_, rfl⟩
  rw [setPte_frame _ _ _ _ (.inr (by decide))]
  decide

/-- A write and a read of one page. -/
theorem tlb_harmless_sample :
    let calls : List PmemCall :=
      [.write { fPos := 0x200000#64 } [0x11#8], .read { fPos := 0x200800#64 } 16]
    ∀ actions : List (PmemCall × Picks), actions.map Prod.fst = calls →
      Along (stepCached sampleKernel) (AsPlain sampleKernel)
        { memory := sampleMemory, frames := [] } actions := by
  intro calls
  have stored : (pmemWrite sampleKernel { fPos := 0x200000#64 } [0x11#8] none sampleMemory).memory =
      storeBytes sampleMemory 0x200000 [0x11#8] :=
    pmemWrite_stored sampleMemory_finds (not_faults_none _) (by decide)
  have finds : Along (plainStep sampleKernel) (fun memory _ => sampleKernel.Finds memory) sampleMemory
      calls := by
    refine ⟨sampleMemory_finds, fun next steps => ⟨?_, fun _ _ => trivial⟩⟩
    cases steps
    exact sampleKernel_finds fun a _ high =>
      (congrFun stored a).trans (storeBytes_frame _ _ _ _ (.inl (by omega)))
  refine (tlb_harmless_iff sampleMemory finds (by decide)).mpr ⟨0x200, ?_⟩
  have frames : ∀ call ∈ calls, call.frame = 0x200 := by decide
  exact fun call member _ => frames call member

end TestPrograms.Devmem
