import Mathlib.Data.List.Forall2
import TestPrograms.Genpipe.HexFrames

/-! # Letters that are no digits

The decoder folds case and then takes any letter for a digit, so it spells frames from `G` to
`Z` as well.  A letter does no harm where the frame has all its bytes before it.
-/

namespace TestPrograms.Genpipe

open TestPrograms.Foundations
open TestPrograms.Foundations.Memory
open TestPrograms.Linux

/-- The frame that the hexadecimal digits of the line spell. -/
def hexFrame (line : List Byte) : List Byte := (pairDigits (line.filterMap hexDigit?)).take mtu

def Decoder.fresh (tmpPkt : Memory) : Decoder where
  tmpPkt
  frameLen := 0
  pos := 0

/-- A character that is no hexadecimal digit leaves the decoder as the ones before it did. -/
def SkipsOthers (line : List Byte) : Prop :=
  ∀ before c after, line = before ++ c :: after → hexDigit? c = none →
    ∀ tmpPkt, decodeLine (.fresh tmpPkt) (before ++ [c]) = decodeLine (.fresh tmpPkt) before

structure OnlyHexDigits (line packet : List Byte) : Prop where
  frame : packet = List.replicate 14 0 ++ hexFrame line
  skips : SkipsOthers line

/-- `G` to `Z` in either case. -/
def PastF (c : Byte) : Prop := 0x47#8 ≤ c ∧ c ≤ 0x5a#8 ∨ 0x67#8 ≤ c ∧ c ≤ 0x7a#8

instance (c : Byte) : Decidable (PastF c) := inferInstanceAs (Decidable (_ ∨ _))

/-- Every letter past `F` has `count` hexadecimal digits before it. -/
def PastFBehind (count : Nat) (line : List Byte) : Prop :=
  ∀ before c after, line = before ++ c :: after → PastF c →
    count ≤ (before.filterMap hexDigit?).length

/-! ## Digits and letters -/

theorem digitOf_eq : ∀ c : Byte, ¬ PastF c → digitOf c = hexDigit? c := by
  decide

theorem pastF_digit : ∀ c : Byte, PastF c → hexDigit? c = none ∧ (digitOf c).isSome := by
  decide

theorem filterMap_length_le (line : List Byte) :
    (line.filterMap hexDigit?).length ≤ (line.filterMap digitOf).length := by
  induction line with
  | nil => exact Nat.le_refl _
  | cons c line ih =>
    by_cases past : PastF c
    · obtain ⟨value, spelled⟩ := Option.isSome_iff_exists.mp (pastF_digit c past).2
      simp only [List.filterMap_cons, (pastF_digit c past).1, spelled, List.length_cons]
      omega
    · simp only [List.filterMap_cons, digitOf_eq c past]
      cases hexDigit? c with
      | none => exact ih
      | some value => exact Nat.succ_le_succ ih

theorem PastFBehind.tail {count : Nat} {c : Byte} {line : List Byte} (behind : PastFBehind count (c :: line)) :
    PastFBehind (count - (hexDigit? c).toList.length) line := by
  intro before d after split past
  have counted := behind (c :: before) d after (by rw [split, List.cons_append]) past
  cases spelled : hexDigit? c with
  | none => simpa [List.filterMap_cons, spelled] using counted
  | some value =>
    simp only [List.filterMap_cons, spelled, List.length_cons] at counted
    simp only [Option.toList_some, List.length_singleton]
    omega

/-- So far as it counts, the decoder's digits are the hexadecimal ones. -/
theorem PastFBehind.take_eq {count : Nat} {line : List Byte} (behind : PastFBehind count line) :
    (line.filterMap digitOf).take count = (line.filterMap hexDigit?).take count := by
  induction line generalizing count with
  | nil => rfl
  | cons c line ih =>
    have rest := ih behind.tail
    by_cases past : PastF c
    · have none := behind [] c line rfl past
      rw [List.filterMap_nil, List.length_nil, Nat.le_zero] at none
      simp [none]
    · simp only [List.filterMap_cons, digitOf_eq c past]
      cases spelled : hexDigit? c with
      | none => simpa [spelled] using rest
      | some value =>
        cases count with
        | zero => rfl
        | succ count =>
          simp only [spelled, Option.toList_some, List.length_singleton, Nat.add_sub_cancel] at rest
          simp only [List.take_succ_cons, rest]

theorem PastFBehind.frameOf_eq {line : List Byte} (behind : PastFBehind (2 * mtu) line) :
    frameOf line = hexFrame line := by
  rw [frameOf, pairDigits_take, behind.take_eq, ← pairDigits_take, hexFrame]

/-! ## The decoder between characters -/

theorem decodeLine_append (d : Decoder) (first second : List Byte) :
    decodeLine d (first ++ second) = decodeLine (decodeLine d first) second := by
  induction first generalizing d with
  | nil => rfl
  | cons c first ih =>
    simp only [List.cons_append, decodeLine]
    split
    · exact ih _
    · rename_i full
      cases second with
      | nil => rfl
      | cons c second => simp only [decodeLine, full, if_false]

theorem frameOf_length (line : List Byte) :
    (frameOf line).length = min mtu ((line.filterMap digitOf).length / 2) := by
  rw [frameOf, List.length_take, pairDigits_length]

theorem decodeLine_frameLen (tmpPkt : Memory) (line : List Byte) :
    (decodeLine (.fresh tmpPkt) line).frameLen = (frameOf line).length := by
  have lengths := congrArg List.length (decodeLine_packet (.fresh tmpPkt) line (Nat.zero_le _))
  simp only [Decoder.packet, Decoder.fresh, Decoder.half, if_true, spellFrom, loadBytes_length,
    List.length_append, Nat.sub_zero] at lengths
  simp only [Decoder.fresh, frameOf]
  omega

theorem decodeLoop_frameLen (count ptr : Nat) (memory tmpPkt : Memory) :
    (decodeLoop count ptr memory (.fresh tmpPkt)).2.frameLen =
      (frameOf (loadBytes memory ptr count)).length := by
  rw [decodeLoop_decoder, decodeLine_frameLen]

theorem decodeDigit_ne (d : Decoder) (value : Byte) : decodeDigit d value ≠ d := by
  intro same
  by_cases first : d.pos = 0
  · have pos := congrArg Decoder.pos same
    simp [decodeDigit, first] at pos
  · have pos := congrArg Decoder.pos same
    simp only [decodeDigit, first, if_false] at pos
    exact first pos.symm

/-- A letter past `F` is skipped exactly where the frame is full. -/
theorem pastF_skipped_iff (tmpPkt : Memory) (before : List Byte) {c : Byte} (past : PastF c) :
    decodeLine (.fresh tmpPkt) (before ++ [c]) = decodeLine (.fresh tmpPkt) before ↔
      2 * mtu ≤ (before.filterMap digitOf).length := by
  have frameLen := decodeLine_frameLen tmpPkt before
  rw [frameOf_length] at frameLen
  rw [decodeLine_append]
  generalize decodeLine (.fresh tmpPkt) before = d at frameLen ⊢
  obtain ⟨value, spelled⟩ := Option.isSome_iff_exists.mp (pastF_digit c past).2
  simp only [decodeLine, decodeChar_fst, spelled]
  split
  · exact ⟨fun same => absurd same (decodeDigit_ne d value), fun _ => by omega⟩
  · exact ⟨fun _ => by omega, fun _ => rfl⟩

theorem skipsOthers_iff (line : List Byte) : SkipsOthers line ↔ PastFBehind (2 * mtu) line := by
  constructor
  · intro skips before
    -- the first such letter of the line has only hexadecimal digits before it
    induction length : before.length using Nat.strong_induction_on generalizing before with
    | _ n ih =>
      intro c after split past
      by_cases earlier : ∃ d ∈ before, PastF d
      · obtain ⟨d, member, past'⟩ := earlier
        obtain ⟨front, back, cut⟩ := List.append_of_mem member
        have shorter : front.length < n := by
          rw [← length, cut, List.length_append, List.length_cons]
          omega
        have counted := ih front.length shorter front rfl d (back ++ c :: after)
          (by rw [split, cut, List.append_assoc, List.cons_append]) past'
        rw [cut, List.filterMap_append, List.length_append]
        omega
      · have same : before.filterMap digitOf = before.filterMap hexDigit? :=
          List.filterMap_congr fun d member => digitOf_eq d fun past' => earlier ⟨d, member, past'⟩
        rw [← same]
        exact (pastF_skipped_iff (fun _ => 0) before past).mp
          (skips before c after split (pastF_digit c past).1 (fun _ => 0))
  · intro behind before c after split other tmpPkt
    by_cases past : PastF c
    · rw [pastF_skipped_iff tmpPkt before past]
      exact Nat.le_trans (behind before c after split past) (filterMap_length_le before)
    · have none : digitOf c = none := (digitOf_eq c past).trans other
      simp [decodeLine_append, decodeLine, decodeChar_fst, none]

theorem onlyHexDigits_iff (line : List Byte) :
    OnlyHexDigits line (List.replicate 14 0 ++ frameOf line) ↔ PastFBehind (2 * mtu) line := by
  constructor
  · exact fun only => (skipsOthers_iff line).mp only.skips
  · exact fun behind => ⟨by rw [behind.frameOf_eq], (skipsOthers_iff line).mpr behind⟩

/-! ## Every line of every call -/

theorem genpipeWrite_builds {s s' : Tx} (ready : s.Ready) {call : WriteCall} {copyLen : Nat}
    (returns : genpipeWrite call s = .ok (.ok copyLen, s')) :
    ∃ lines, Lines newline (s.kept call.buf.length ++ s.accepted call.buf) lines s'.pending ∧
      s'.built = s.built ++ lines.map fun line => List.replicate 14 0 ++ frameOf line := by
  by_cases faults : Faults call.fault (s.accepted call.buf).length
  · rw [genpipeWrite_eq ready, if_pos faults] at returns
    cases returns
  · rcases genpipeWrite_spec ready call faults with
      ⟨stuck, fails, -⟩ | ⟨t, lines, writes, taken, read⟩
    · rw [returns] at fails
      cases fails
    · rw [returns] at writes
      cases writes
      exact ⟨lines, read, taken.built⟩

/-- The packets a call sends are, line by line, the hexadecimal digits of the line and nothing else
    exactly where no letter past `F` comes before the frame is full. -/
theorem hex_digits_only_iff (memory : Memory) (start : Nat) (low : start + packetBufMax ≤ 2 ^ 64)
    {earlier : List WriteCall} {s : Stream}
    (reached : run writeCall (Stream.init memory start) earlier = .ok s)
    {call : WriteCall} {copyLen : Nat} {s' : Tx} (returns : genpipeWrite call s.tx = .ok (.ok copyLen, s')) :
    ∃ lines packets,
      Lines newline (s.tx.kept call.buf.length ++ s.tx.accepted call.buf) lines s'.pending ∧
      s'.built = s.tx.built ++ packets ∧
      List.Forall₂ (fun line packet => OnlyHexDigits line packet ↔ PastFBehind (2 * mtu) line)
        lines packets := by
  obtain ⟨lines, read, built⟩ := genpipeWrite_builds (reached_ready low reached).1 returns
  refine ⟨lines, _, read, built, ?_⟩
  rw [List.forall₂_map_right_iff]
  exact List.forall₂_same.mpr fun line _ => onlyHexDigits_iff line

def oneLine (line : List Byte) : WriteCall where
  buf := line ++ [newline]
  fault := none
  alloc _ length := some (length + 2)

theorem oneLine_built (line : List Byte) (unbroken : newline ∉ line) (short : line.length < packetBufMax - 1) :
    ∃ s', genpipeWrite (oneLine line) (Tx.init (fun _ => 0) 0x10000) =
        .ok (.ok (line.length + 1), s') ∧
      s'.built = [List.replicate 14 0 ++ frameOf line] := by
  have ready : (Tx.init (fun _ => 0) 0x10000).Ready := Tx.Ready.init _ (by decide)
  have fits : (Tx.init (fun _ => 0) 0x10000).pending.length + (oneLine line).buf.length ≤
      (Tx.init (fun _ => 0) 0x10000).txEndPtr - (Tx.init (fun _ => 0) 0x10000).txStartPtr := by
    rw [ready.length_pending, oneLine, List.length_append, List.length_singleton]
    simp only [Tx.init]
    omega
  obtain ⟨kept, accepted⟩ := fitting_call ready fits
  rcases genpipeWrite_spec ready (oneLine line) (not_faults_none _) with
    ⟨_, _, _, poor⟩ | ⟨s', lines, writes, taken, read⟩
  · exact absurd (fun _ length => ⟨length + 2, rfl, Nat.le_refl _⟩) poor
  · have nothing : (Tx.init (fun _ => 0) 0x10000).pending = [] := by
      simp [Tx.pending, Tx.init, loadBytes]
    rw [kept, accepted, nothing, List.nil_append] at read
    have whole := Lines.cons unbroken (Lines.nil_of_not_mem (List.not_mem_nil (a := newline)))
    obtain ⟨rfl, -⟩ := read.unique whole
    refine ⟨s', ?_, taken.built⟩
    rw [writes, accepted]
    simp [oneLine]

/-- `G0` is taken for one byte; it spells none. -/
theorem pastF_sends_byte :
    ∃ s', genpipeWrite (oneLine [0x47#8, 0x30#8]) (Tx.init (fun _ => 0) 0x10000) = .ok (.ok 3, s') ∧
      s'.built = [List.replicate 14 0 ++ [0x00#8]] ∧ hexFrame [0x47#8, 0x30#8] = [] ∧
      ¬ OnlyHexDigits [0x47#8, 0x30#8] (List.replicate 14 0 ++ [0x00#8]) := by
  obtain ⟨s', writes, built⟩ := oneLine_built [0x47#8, 0x30#8] (by decide) (by decide)
  have spelled : frameOf [0x47#8, 0x30#8] = [0x00#8] := by decide
  have none : hexFrame [0x47#8, 0x30#8] = [] := by decide
  refine ⟨s', writes, by rw [built, spelled], none, fun only => ?_⟩
  have frame := only.frame
  rw [none] at frame
  exact absurd frame (by decide)

theorem hex_digits_only_sample :
    ∃ s' lines packets, genpipeWrite (oneLine [0x61#8, 0x2d#8, 0x42#8]) (Tx.init (fun _ => 0) 0x10000) =
        .ok (.ok 4, s') ∧ s'.built = packets ∧
      List.Forall₂ (fun line packet => OnlyHexDigits line packet ↔ PastFBehind (2 * mtu) line)
        lines packets := by
  have fresh : run writeCall (Stream.init (fun _ => 0) 0x10000) [] =
      .ok (Stream.init (fun _ => 0) 0x10000) := rfl
  obtain ⟨s', writes, _⟩ := oneLine_built [0x61#8, 0x2d#8, 0x42#8] (by decide) (by decide)
  obtain ⟨lines, packets, _, built, agree⟩ :=
    hex_digits_only_iff (fun _ => 0) 0x10000 (by decide) fresh writes
  exact ⟨s', lines, packets, writes, built, agree⟩

end TestPrograms.Genpipe
