import TestPrograms.Devmem.Region
import TestPrograms.Editor.OnDevice

/-! # Editing the kernel's memory

The editor on `/dev/kmem`.  A page walk reads page tables from the very memory that is edited, so
it is for the addresses whose translation the bytes typed do not touch that a session is known to
write where the kernel would.
-/

namespace TestPrograms.Editor

open TestPrograms.Foundations
open TestPrograms.Devmem

section

variable {k : Kernel} {region : Set Addr} {frames : Addr → Nat} {memory : Memory}
  {admits : BitVec 64 → Bool}

variable (mapped : Mapped k memory region frames) (admitted : ∀ v ∈ region, admits (positionOf v))

include mapped admitted

/-- As long as bytes are typed in the region only, each goes to the frame behind the cursor. -/
theorem kmem_session_memory {t : Terminal} {s final : Session Opened} {inputs : List Input}
    (agrees : Agrees region frames memory s.file.memory)
    (runs : run (Session.turn (Device.kmem.openFile k admits) t) s inputs = .ok final) :
    ∃ written, final.editor.requests = s.editor.requests ++ written ∧
      ((∀ write ∈ written, write.1 ∈ region) →
        final.file.memory = written.foldl (fun memory (v, byte) =>
          Function.update memory (physical frames v) byte) s.file.memory) := by
  induction inputs generalizing s with
  | nil =>
    cases runs
    exact ⟨[], (List.append_nil _).symm, fun _ => rfl⟩
  | cons input inputs ih =>
    obtain ⟨next, steps, runs⟩ := run_cons_inv runs
    have key := (Session.turn_inv steps).2
    have leaves := Session.key_ok (Device.kmem.openFile_refines k admits) (mapped.found _ agrees) key
    have quiet (first : ¬ (s.editor.n ≠ 0 ∧ isxdigit input.key))
        (same : next.editor.requests = s.editor.requests) :
        ∃ written, final.editor.requests = s.editor.requests ++ written ∧
          ((∀ write ∈ written, write.1 ∈ region) →
            final.file.memory = written.foldl (fun memory (v, byte) =>
              Function.update memory (physical frames v) byte) s.file.memory) := by
      -- nothing is written, so that the memory is as it was
      have kept := leaves.memory fun second typed => absurd ⟨second, typed⟩ first
      rw [same, List.drop_length, Store.storeAll_nil] at kept
      obtain ⟨written, requests, memory⟩ := ih (by rwa [kept]) runs
      rw [same] at requests
      rw [kept] at memory
      exact ⟨written, requests, memory⟩
    cases Session.key_transfers key with
    | still first same => exact quiet first same
    | reads first same => exact quiet first same
    | writes second typed byte asked =>
      by_cases here : s.editor.cursor ∈ region
      · have stored := leaves.memory fun _ _ => mapped.spares agrees here
        rw [asked, List.drop_left, Store.storeAll_singleton,
          mapped.stored agrees here (admitted _ here)] at stored
        obtain ⟨written, requests, memory⟩ := ih (by rw [stored]; exact agrees.update here byte) runs
        refine ⟨(s.editor.cursor, byte) :: written, ?_, fun all => ?_⟩
        · rw [requests, asked, List.append_assoc]
          rfl
        · rw [memory fun write member => all write (List.mem_cons_of_mem _ member), stored]
          rfl
      · obtain ⟨written, requests, -⟩ := Session.along_of_requests runs
        refine ⟨(s.editor.cursor, byte) :: written, ?_, fun all => ?_⟩
        · rw [requests, asked, List.append_assoc]
          rfl
        · exact absurd (all _ List.mem_cons_self) here

/-- However a session on `/dev/kmem` redraws, scrolls and moves about: as long as bytes are typed
    only at mapped addresses, all of physical memory is at the end what the bytes typed have made
    of it, in order, each in the frame behind the virtual address that was under the cursor. -/
theorem kmem_session {t : Terminal} {c : Byte} {inputAddr : Addr} {opened : Opened}
    {s final : Session Opened} {inputs : List Input} (same : opened.memory = memory)
    (starts : Session.start (Device.kmem.openFile k admits) t c inputAddr opened = .ok s)
    (runs : run (Session.turn (Device.kmem.openFile k admits) t) s inputs = .ok final) :
    ∃ view presses, presses.map Press.key = inputs.map Input.key ∧
      run (turn t) (start t view inputAddr) presses = .ok final.editor ∧
      ((∀ write ∈ final.editor.requests, write.1 ∈ region) →
        final.file.memory = final.editor.requests.foldl (fun memory (v, byte) =>
          Function.update memory (physical frames v) byte) memory) := by
  obtain ⟨editor, loaded⟩ := device_started (by rw [same]; exact mapped.found _ fun _ _ => rfl) starts
  obtain ⟨presses, keys, reaches, -⟩ := Session.editor_of_run runs
  rw [editor] at reaches
  refine ⟨_, presses, keys, reaches, fun typed => ?_⟩
  have none : s.editor.requests = [] := by rw [editor, start]
  obtain ⟨written, requests, stored⟩ := kmem_session_memory mapped admitted
    (fun a _ => by rw [loaded, same]) runs
  rw [none, List.nil_append] at requests
  subst requests
  rw [stored typed, loaded, same]

end

/-- The positions of the kernel image, which needs no page walk. -/
def sampleAdmits (fPos : BitVec 64) : Bool :=
  ¬ kmemAddr fPos < 0xffffffff80000000#64 ∧ kmemAddr fPos < 0xffffffffc0000000#64

theorem sampleAdmits_region {memory : Memory} (mapped : Mapped sampleKernel memory sampleRegion fun _ => 0x1000)
    {v : Addr} (inside : v ∈ sampleRegion) : sampleAdmits (positionOf v) := by
  have low := inside.1
  have high := inside.2
  rw [sampleAdmits, kmemAddr_positionOf (mapped.canonical v inside)]
  simp only [BitVec.lt_def, BitVec.toNat_ofNat, decide_eq_true_eq]
  omega

/-- `42` typed at the last byte of the page, with a redraw between. -/
theorem kmem_session_sample :
    let file := Device.kmem.openFile sampleKernel sampleAdmits
    let inputs := [ord '4', -1, ord '2'].map sampleInput
    ∃ s final, Session.start file sampleTerminal 0 0xffffffff81000fff#64 sampleOpened = .ok s ∧
      run (Session.turn file sampleTerminal) s inputs = .ok final ∧
      final.file.memory = Function.update sampleOpened.memory 0x1000fff 0x42 := by
  intro file inputs
  have calls : file.Returns := kmem_returns fun memory fPos admitted => by
    have image := of_decide_eq_true admitted
    exact ⟨_, by rw [kmemPhyAddr, if_neg image.1, if_pos image.2]⟩
  obtain ⟨s, starts⟩ := Session.start_returns calls sampleTerminal 0 0xffffffff81000fff#64 sampleOpened
  obtain ⟨final, runs⟩ := Session.run_returns calls sampleTerminal s (show ∀ input ∈ inputs, _ by decide)
  have mapped : Mapped sampleKernel sampleOpened.memory sampleRegion fun _ => 0x1000 :=
    sampleRegion_mapped fun a _ high => Function.update_of_ne (by omega) _ _
  obtain ⟨-, -, -, -, memory⟩ := kmem_session mapped (fun _ inside => sampleAdmits_region mapped inside) rfl
    starts runs
  obtain ⟨editor, -⟩ := device_started sampleOpened_finds starts
  have requests : final.editor.requests = [(0xffffffff81000fff#64, 0x42#8)] := by
    rw [(Session.requests_of_typed (by rw [editor]; exact start_inWindow _ _ _) (by rw [editor]; rfl)
      (by decide) runs).2, editor]
    decide
  refine ⟨s, final, starts, runs, ?_⟩
  rw [memory, requests]
  · rfl
  · rw [requests]
    intro write member
    rw [List.mem_singleton.mp member]
    exact ⟨by decide, by decide⟩

end TestPrograms.Editor
