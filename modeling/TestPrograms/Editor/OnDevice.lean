import TestPrograms.Devmem.DeviceFile
import TestPrograms.Editor.SessionRefines
import TestPrograms.Editor.Typing

/-! # Editing a memory device

The editor on `/dev/pmem` and `/dev/kmem`: what a session leaves in physical memory.
-/

namespace TestPrograms.Editor

open TestPrograms.Foundations
open TestPrograms.Foundations.Memory
open TestPrograms.Devmem

section

variable {dev : Devmem.Device} {k : Kernel} {admits : BitVec 64 → Bool} {t : Terminal}

/-- Over a session the memory changes by what it asks to write. -/
theorem device_session {s final : Session Opened} {inputs : List Input} (inside : s.editor.InWindow t)
    (finds : Along (Session.turn (dev.openFile k admits) t) (fun s _ => k.Finds s.file.memory) s inputs)
    (spares : Along (Session.turn (dev.openFile k admits) t)
      (Session.Spares Opened.memory (dev.Spares k)) s inputs)
    (runs : run (Session.turn (dev.openFile k admits) t) s inputs = .ok final) :
    ∃ written, final.editor.requests = s.editor.requests ++ written ∧
      final.file.memory = (dev.store k admits).storeAll s.file.memory written :=
  Edited.memory_of_run inside (Session.run_ok (dev.openFile_refines k admits) finds spares runs)

/-- On `pmem` where a byte goes does not depend on memory, so that it is enough to know in the
    end what was asked for. -/
theorem pmem_spares {s final : Session Opened} {inputs : List Input}
    (runs : run (Session.turn (Device.pmem.openFile k admits) t) s inputs = .ok final) :
    ∃ written, final.editor.requests = s.editor.requests ++ written ∧
      ((∀ write ∈ written, write.1.toNat / 4096 % 2 ^ 40 ≠ k.pagedPte / 4096) →
        Along (Session.turn (Device.pmem.openFile k admits) t)
          (Session.Spares Opened.memory (Device.pmem.Spares k)) s inputs) := by
  obtain ⟨written, requests, along⟩ := Session.along_of_requests runs
  refine ⟨written, requests, fun spared => ?_⟩
  refine Along.imp (fun _ => True) (fun s input _ apart second typed => ?_)
    (fun _ _ _ _ _ _ _ => trivial) trivial
    (along (fun address => address.toNat / 4096 % 2 ^ 40 ≠ k.pagedPte / 4096) spared)
  rintro phyAddr ⟨⟩
  rw [toNat_frame]
  exact apart second typed

theorem pmem_session_memory {s final : Session Opened} {inputs : List Input}
    (inside : s.editor.InWindow t)
    (finds : Along (Session.turn (Device.pmem.openFile k admits) t) (fun s _ => k.Finds s.file.memory)
      s inputs)
    (runs : run (Session.turn (Device.pmem.openFile k admits) t) s inputs = .ok final) :
    ∃ written, final.editor.requests = s.editor.requests ++ written ∧
      ((∀ write ∈ written, write.1.toNat / 4096 % 2 ^ 40 ≠ k.pagedPte / 4096) →
        final.file.memory = (Device.pmem.store k admits).storeAll s.file.memory written) := by
  obtain ⟨written, requests, spares⟩ := pmem_spares runs
  refine ⟨written, requests, fun spared => ?_⟩
  obtain ⟨stored, same, memory⟩ := device_session inside finds (spares spared) runs
  obtain rfl : stored = written := List.append_cancel_left (same.symm.trans requests)
  exact memory

/-- One turn on `pmem`, with the walk finding the entry: the memory stays, or a byte is stored at
    the cursor. -/
theorem pmem_turn {s next : Session Opened} {input : Input} (found : k.Finds s.file.memory)
    (spares : s.Spares Opened.memory (Device.pmem.Spares k) input)
    (steps : s.turn (Device.pmem.openFile k admits) t input = .ok next) :
    next.file.memory = s.file.memory ∨ s.editor.n ≠ 0 ∧ isxdigit input.key ∧ ∃ byte,
      next.file.memory = Function.update s.file.memory (s.editor.cursor.toNat % 2 ^ 52) byte := by
  have key := (Session.turn_inv steps).2
  have memory := (Session.key_ok (Device.pmem.openFile_refines k admits) found key).memory spares
  cases Session.key_transfers key with
  | still _ same =>
    rw [same, List.drop_length, Store.storeAll_nil] at memory
    exact .inl memory
  | reads _ same =>
    rw [same, List.drop_length, Store.storeAll_nil] at memory
    exact .inl memory
  | writes second typed byte asked =>
    rw [asked, List.drop_left, Store.storeAll_singleton, pmem_stored] at memory
    split at memory
    · exact .inr ⟨second, typed, byte, memory⟩
    · exact .inl memory

/-- Bytes typed beside the tables on the way to the entry of `paged_buf`, and outside the page of
    the entry, leave the walk finding it. -/
theorem pmem_session_finds {words : Set Nat} {memory : Memory} (leads : k.Leads words memory)
    {s final : Session Opened} {inputs : List Input} (agrees : ∀ a ∈ words, s.file.memory a = memory a)
    (there : present (pteVal s.file.memory k.pagedPte))
    (runs : run (Session.turn (Device.pmem.openFile k admits) t) s inputs = .ok final) :
    ∃ written, final.editor.requests = s.editor.requests ++ written ∧
      ((∀ write ∈ written, write.1.toNat / 4096 % 2 ^ 40 ≠ k.pagedPte / 4096 ∧
          write.1.toNat % 2 ^ 52 ∉ words) →
        Along (Session.turn (Device.pmem.openFile k admits) t) (fun s _ => k.Finds s.file.memory)
          s inputs) := by
  obtain ⟨written, requests, along⟩ := Session.along_of_requests runs
  have aligned := k.aligned
  refine ⟨written, requests, fun spared => ?_⟩
  let I (s : Session Opened) : Prop :=
    (∀ a ∈ words, s.file.memory a = memory a) ∧ present (pteVal s.file.memory k.pagedPte)
  refine Along.imp I (fun s _ kept _ => leads.finds _ kept.1 kept.2)
    (fun s input next kept apart found steps => ?_) ⟨agrees, there⟩
    (along (fun address => address.toNat / 4096 % 2 ^ 40 ≠ k.pagedPte / 4096 ∧
      address.toNat % 2 ^ 52 ∉ words) spared)
  have spares : s.Spares Opened.memory (Device.pmem.Spares k) input := by
    rintro second typed phyAddr ⟨⟩
    rw [toNat_frame]
    exact (apart second typed).1
  obtain same | ⟨second, typed, byte, stored⟩ := pmem_turn found spares steps
  · dsimp only [I]
    rwa [same]
  · obtain ⟨page, away⟩ := apart second typed
    dsimp only [I]
    rw [stored]
    refine ⟨fun a member => ?_, ?_⟩
    · rw [Function.update_of_ne (fun here => away (by rwa [← here]))]
      exact kept.1 a member
    · have entry : pteVal (Function.update s.file.memory (s.editor.cursor.toNat % 2 ^ 52) byte)
          k.pagedPte = pteVal s.file.memory k.pagedPte :=
        pteVal_congr fun a low high => Function.update_of_ne (by omega) _ _
      rw [entry]
      exact kept.2

theorem device_started {c : Byte} {inputAddr : Addr} {opened : Opened} {s : Session Opened}
    (found : k.Finds opened.memory)
    (starts : Session.start (dev.openFile k admits) t c inputAddr opened = .ok s) :
    s.editor = start t { device := (dev.store k admits).shown opened.memory, c } inputAddr ∧
      s.file.memory = opened.memory := by
  have begun := Session.start_ok (dev.openFile_refines k admits) found starts
  exact ⟨congrArg Edited.editor begun, congrArg Edited.memory begun⟩

end

/-- Whatever is typed, no session on `/dev/pmem` gets stuck, and the editor goes through the same
    keys as without a device.  As long as the walk finds the entry of `paged_buf`, redrawing,
    scrolling and moving about leave all of physical memory as it was: at the end it is what the
    bytes typed have made of it, in order, each at the physical address that was under the cursor. -/
theorem pmem_session (k : Kernel) (admits : BitVec 64 → Bool) (t : Terminal) (c : Byte)
    (inputAddr : Addr) (opened : Opened) {inputs : List Input}
    (stays : ∀ input ∈ inputs, input.key ≠ ctrl 'X') :
    ∃ s final view presses, Session.start (Device.pmem.openFile k admits) t c inputAddr opened = .ok s ∧
      run (Session.turn (Device.pmem.openFile k admits) t) s inputs = .ok final ∧
      presses.map Press.key = inputs.map Input.key ∧
      run (turn t) (start t view inputAddr) presses = .ok final.editor ∧
      (k.Finds opened.memory →
        Along (Session.turn (Device.pmem.openFile k admits) t) (fun s _ => k.Finds s.file.memory)
          s inputs →
        (∀ write ∈ final.editor.requests, write.1.toNat / 4096 % 2 ^ 40 ≠ k.pagedPte / 4096) →
        final.file.memory = final.editor.requests.foldl (fun memory (address, byte) =>
          if admits address then Function.update memory (address.toNat % 2 ^ 52) byte else memory)
          opened.memory) := by
  have calls := pmem_returns k admits
  obtain ⟨s, starts⟩ := Session.start_returns calls t c inputAddr opened
  obtain ⟨final, runs⟩ := Session.run_returns calls t s stays
  obtain ⟨view, editor⟩ := Session.start_view starts
  obtain ⟨presses, keys, reaches, -⟩ := Session.editor_of_run runs
  rw [editor] at reaches
  refine ⟨s, final, view, presses, starts, runs, keys, reaches, fun found finds spared => ?_⟩
  have inside : s.editor.InWindow t := by
    rw [editor]
    exact start_inWindow t _ inputAddr
  have none : s.editor.requests = [] := by rw [editor, start]
  obtain ⟨written, requests, memory⟩ := pmem_session_memory inside finds runs
  rw [none, List.nil_append] at requests
  subst requests
  rw [memory spared, (device_started found starts).2, Store.storeAll]
  simp only [pmem_stored]

/-- With nothing typed over its tables the sample kernel finds its entry. -/
theorem sampleKernel_session_finds {admits : BitVec 64 → Bool} {t : Terminal} {s final : Session Opened}
    {inputs : List Input} (first : s.editor.requests = [])
    (same : ∀ a, 0x1000 ≤ a → a < 0x5000 → s.file.memory a = sampleMemory a)
    (runs : run (Session.turn (Device.pmem.openFile sampleKernel admits) t) s inputs = .ok final)
    (high : ∀ write ∈ final.editor.requests, 0x5000 ≤ write.1.toNat % 2 ^ 52) :
    Along (Session.turn (Device.pmem.openFile sampleKernel admits) t)
      (fun s _ => sampleKernel.Finds s.file.memory) s inputs := by
  have there : present (pteVal s.file.memory sampleKernel.pagedPte) := by
    have entry : pteVal s.file.memory 0x1000 = pteVal sampleMemory 0x1000 :=
      pteVal_congr fun a low high => same a low (by omega)
    rw [show sampleKernel.pagedPte = 0x1000 from rfl, entry]
    exact sampleKernel_leads.there
  obtain ⟨written, requests, finds⟩ := pmem_session_finds sampleKernel_leads
    (fun a word => same a (sampleWords_low word).1 (sampleWords_low word).2) there runs
  rw [first, List.nil_append] at requests
  subst requests
  refine finds fun write member => ?_
  have above := high write member
  refine ⟨?_, fun word => ?_⟩
  · change _ ≠ 0x1000 / 4096
    omega
  · have below := (sampleWords_low word).2
    omega

/-- `42` typed at `0x200000`. -/
theorem sampleKernel_session {s : Session Opened} {inputs : List Input}
    (starts : Session.start (Device.pmem.openFile sampleKernel fun _ => true) sampleTerminal 0 0x200000#64
      sampleOpened = .ok s)
    (keys : ∀ input ∈ inputs, isxdigit input.key ∨ input.key = -1)
    (digits : typedDigits inputs = [ord '4', ord '2']) {final : Session Opened}
    (runs : run (Session.turn (Device.pmem.openFile sampleKernel fun _ => true) sampleTerminal) s inputs =
      .ok final) :
    final.editor.topAddr = 0x200000#64 ∧ final.editor.requests = [(0x200000#64, 0x42#8)] ∧
      Along (Session.turn (Device.pmem.openFile sampleKernel fun _ => true) sampleTerminal)
        (fun s _ => sampleKernel.Finds s.file.memory) s inputs := by
  obtain ⟨editor, loaded⟩ := device_started sampleOpened_finds starts
  obtain ⟨top, requests⟩ := Session.requests_of_typed (by rw [editor]; exact start_inWindow _ _ _)
    (by rw [editor]; rfl) keys runs
  rw [editor, digits] at requests
  replace requests : final.editor.requests = [(0x200000#64, 0x42#8)] := requests.trans (by decide)
  refine ⟨by rw [top, editor]; decide, requests, ?_⟩
  refine sampleKernel_session_finds (by rw [editor, start]) (fun a _ high => ?_) runs
    (by rw [requests]; exact List.forall_mem_singleton.mpr (by decide))
  rw [loaded]
  exact Function.update_of_ne (by omega) _ _

/-- The session of `42` with a redraw between the digits. -/
theorem pmem_session_sample :
    let file := Device.pmem.openFile sampleKernel fun _ => true
    let inputs := [ord '4', -1, ord '2'].map sampleInput
    ∃ s final, Session.start file sampleTerminal 0 0x200000#64 sampleOpened = .ok s ∧
      run (Session.turn file sampleTerminal) s inputs = .ok final ∧
      final.file.memory = Function.update sampleOpened.memory 0x200000 0x42#8 := by
  intro file inputs
  obtain ⟨s, final, view, presses, starts, runs, -, -, memory⟩ :=
    pmem_session sampleKernel (fun _ => true) sampleTerminal 0 0x200000#64 sampleOpened
      (show ∀ input ∈ inputs, input.key ≠ ctrl 'X' by decide)
  obtain ⟨-, requests, finds⟩ := sampleKernel_session starts (by decide) (by decide) runs
  refine ⟨s, final, starts, runs, ?_⟩
  have spared : ∀ write ∈ final.editor.requests,
      write.1.toNat / 4096 % 2 ^ 40 ≠ sampleKernel.pagedPte / 4096 := by
    rw [requests]
    exact List.forall_mem_singleton.mpr (by decide)
  rw [memory sampleOpened_finds finds spared, requests]
  rfl

/-- Typing the digits of a string of bytes, with time-outs anywhere between them, leaves the bytes
    one after the other in physical memory from the cursor on, and nothing else changed; a read of
    the device gets them back, as long as the walk finds the entry of `paged_buf` to the end. -/
theorem pmem_typed {k : Kernel} {admits : BitVec 64 → Bool} {t : Terminal} {s : Session Opened}
    {inputs : List Input} (inside : s.editor.InWindow t) (fresh : s.editor.n = 0)
    (keys : ∀ input ∈ inputs, isxdigit input.key ∨ input.key = -1)
    (room : 16 * s.editor.y + s.editor.x + (typedBytes (typedDigits inputs)).length ≤ 16 * (t.lines - 5))
    (low : s.editor.cursor.toNat + (typedBytes (typedDigits inputs)).length ≤ 2 ^ 52)
    (reached : ∀ i < (typedBytes (typedDigits inputs)).length,
      admits (s.editor.cursor + BitVec.ofNat 64 i) ∧
        (s.editor.cursor.toNat + i) / 4096 ≠ k.pagedPte / 4096)
    (finds : Along (Session.turn (Device.pmem.openFile k admits) t) (fun s _ => k.Finds s.file.memory)
      s inputs) :
    let file := Device.pmem.openFile k admits
    let bytes := typedBytes (typedDigits inputs)
    ∃ final, run (Session.turn file t) s inputs = .ok final ∧
      final.file.memory = storeBytes s.file.memory s.editor.cursor.toNat bytes ∧
      (k.Finds final.file.memory → ∀ i < bytes.length,
        (file.read (file.lseek final.file (s.editor.cursor + BitVec.ofNat 64 i))).map Prod.fst =
          .ok bytes[i]?) := by
  intro file bytes
  have columns := inside.column
  have rows := inside.row
  have stays : ∀ input ∈ inputs, input.key ≠ ctrl 'X' :=
    fun input member => stays_of_typed (keys input member)
  obtain ⟨final, runs⟩ := Session.run_returns (pmem_returns k admits) t s stays
  have filled := (Session.requests_of_typed inside fresh keys runs).2
  have here : fill t s.editor.topAddr s.editor.position bytes =
      bytes.mapIdx fun i byte => (s.editor.cursor + BitVec.ofNat 64 i, byte) := by
    refine (fill_eq_iff ?_ ?_ s.editor.cursor_position).mpr ?_
    · unfold State.position
      omega
    · unfold State.position
      omega
    · exact room
  obtain ⟨written, requests, memory⟩ := pmem_session_memory inside finds runs
  obtain rfl : written = bytes.mapIdx fun i byte => (s.editor.cursor + BitVec.ofNat 64 i, byte) :=
    (List.append_cancel_left (requests.symm.trans filled)).trans here
  change s.editor.cursor.toNat + bytes.length ≤ 2 ^ 52 at low
  have places : ∀ i < bytes.length,
      (s.editor.cursor + BitVec.ofNat 64 i).toNat = s.editor.cursor.toNat + i := by
    intro i below
    rw [BitVec.toNat_add, BitVec.toNat_ofNat]
    omega
  have spared : ∀ i < bytes.length,
      (s.editor.cursor + BitVec.ofNat 64 i).toNat / 4096 % 2 ^ 40 ≠ k.pagedPte / 4096 := by
    intro i below
    have apart := (reached i below).2
    rw [places i below]
    omega
  have stored : final.file.memory = storeBytes s.file.memory s.editor.cursor.toNat bytes := by
    rw [memory ?_, pmem_storeAll bytes _ _ low fun i below => (reached i below).1]
    intro write member
    obtain ⟨i, below, rfl⟩ := List.mem_mapIdx.mp member
    exact spared i below
  refine ⟨final, runs, stored, fun found i below => ?_⟩
  obtain ⟨⟨item, f⟩, read⟩ := (pmem_returns k admits).read final.file
    (s.editor.cursor + BitVec.ofNat 64 i)
  rw [show file = Device.pmem.openFile k admits from rfl, read, Except.map,
    ((Device.pmem.openFile_refines k admits).read found read).1,
    pmem_shown _ (reached i below).1 (spared i below), stored, places i below,
    Nat.mod_eq_of_lt (by omega), storeBytes_inside _ _ _ _ below, List.getElem?_eq_getElem below]

/-- The device with the editor just started, and the window not yet drawn. -/
def sampleSession : Session Opened where
  editor := start sampleTerminal { device := fun _ => none, c := 0 } 0x200000#64
  file := sampleOpened

theorem pmem_typed_sample :
    let file := Device.pmem.openFile sampleKernel fun _ => true
    let inputs := [ord '4', -1, ord '2', ord 'f', ord '0'].map sampleInput
    let bytes := typedBytes (typedDigits inputs)
    bytes = [0x42, 0xf0] ∧
    ∃ final, run (Session.turn file sampleTerminal) sampleSession inputs = .ok final ∧
      final.file.memory =
        storeBytes sampleSession.file.memory sampleSession.editor.cursor.toNat bytes ∧
      ∀ i < bytes.length,
        (file.read (file.lseek final.file (sampleSession.editor.cursor + BitVec.ofNat 64 i))).map
          Prod.fst = .ok bytes[i]? := by
  intro file inputs bytes
  refine ⟨by decide, ?_⟩
  obtain ⟨final, runs⟩ := Session.run_returns (pmem_returns sampleKernel fun _ => true)
    sampleTerminal sampleSession (show ∀ input ∈ inputs, input.key ≠ ctrl 'X' by decide)
  have keys : ∀ input ∈ inputs, isxdigit input.key ∨ input.key = -1 := by decide
  have requests : final.editor.requests = [(0x200000#64, 0x42#8), (0x200001#64, 0xf0#8)] := by
    rw [(Session.requests_of_typed (start_inWindow _ _ _) rfl keys runs).2]
    decide
  have same (a : Nat) (_ : 0x1000 ≤ a) (high : a < 0x5000) :
      sampleSession.file.memory a = sampleMemory a := Function.update_of_ne (by omega) _ _
  have above : ∀ write ∈ final.editor.requests, 0x5000 ≤ write.1.toNat % 2 ^ 52 := by
    rw [requests]
    exact List.forall_mem_cons.mpr ⟨by decide, List.forall_mem_singleton.mpr (by decide)⟩
  have finds := sampleKernel_session_finds rfl same runs above
  obtain ⟨last, lasts, memory, back⟩ := pmem_typed (start_inWindow _ _ _) rfl keys (by decide)
    (by decide) (by decide) finds
  refine ⟨last, lasts, memory, back (sampleKernel_finds fun a low high => ?_)⟩
  have cursor : sampleSession.editor.cursor.toNat = 0x200000 := by decide
  rw [memory, storeBytes_frame _ _ _ _ (by omega)]
  exact same a low high

end TestPrograms.Editor
