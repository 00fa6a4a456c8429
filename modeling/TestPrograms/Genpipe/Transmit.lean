import TestPrograms.Linux.UserCopy

/-! # The transmit side of `/dev/genpipe`

`genpipe_write` appends what a process writes to a one-megabyte buffer and sends one
frame for each line in it: an skb is built of the line's hexadecimal digits behind fourteen
zero bytes, and these are the header that `eth_type_trans` pulls off again.  Pointers are
kernel addresses; the make-room test adds a user-supplied count to one, so that sum is taken
modulo 2^64.
-/

namespace TestPrograms.Genpipe

open TestPrograms.Foundations
open TestPrograms.Foundations.Memory
open TestPrograms.Linux

-- `PACKET_BUF_MAX`
def packetBufMax : Nat := 1024 * 1024

-- `MTU`
def mtu : Nat := 9014

/-- Why a call would not return: `skb_reserve` of a NULL skb, `skb_put` past the end of
    one, or a line loop that goes on for ever. -/
inductive Stuck where
  | nullSkb
  | skbOverPanic
  | noFuel
  deriving DecidableEq, Repr

/-- `pbuf0` with the memory behind it, and the static `tmp_pkt`.  `handed` and `built`
    record the lines given to the decoder and the data of the skbs given to `eth_type_trans`. -/
structure Tx where
  memory : Memory
  txStartPtr : Nat
  txEndPtr : Nat
  txWritePtr : Nat
  txReadPtr : Nat
  tmpPkt : Memory
  handed : List (List Byte)
  built : List (List Byte)

/-- The buffer as `genpipe_init` leaves it. -/
def Tx.init (memory : Memory) (start : Nat) : Tx where
  memory := memory
  txStartPtr := start
  txEndPtr := start + packetBufMax - 1
  txWritePtr := start
  txReadPtr := start
  tmpPkt _ := 0
  handed := []
  built := []

def Tx.pending (s : Tx) : List Byte :=
  loadBytes s.memory s.txReadPtr (s.txWritePtr - s.txReadPtr)

/-- What the kernel's `eth_type_trans` does to the data of an skb: it pulls the Ethernet header. -/
def PullsHeader (ethTypeTrans : List Byte → List Byte) : Prop :=
  ∀ data, 14 ≤ data.length → ethTypeTrans data = data.drop 14

def pullHeader (data : List Byte) : List Byte := data.drop 14

theorem pullHeader_pulls : PullsHeader pullHeader := fun _ _ => rfl

/-- The data of the skbs as they come to `dev_queue_xmit`. -/
def Tx.sent (ethTypeTrans : List Byte → List Byte) (s : Tx) : List (List Byte) :=
  s.built.map ethTypeTrans

/-- `memcpy`, moving overlapping ranges correctly. -/
def memcpy (memory : Memory) (dst src count : Nat) : Memory :=
  storeBytes memory dst (loadBytes memory src count)

/-! ## Decoding a line -/

def newline : Byte := 0x0a#8

/-- `frame_len`, `pos` and `tmp_pkt` while a line is decoded. -/
structure Decoder where
  tmpPkt : Memory
  frameLen : Nat
  pos : Nat

/-- One digit of value `value`: the high half of a byte, then the low half. -/
def decodeDigit (d : Decoder) (value : Byte) : Decoder :=
  if d.pos = 0 then
    { d with tmpPkt := Function.update d.tmpPkt (d.frameLen + 14) (value <<< 4), pos := 1 }
  else
    { tmpPkt := Function.update d.tmpPkt (d.frameLen + 14) (d.tmpPkt (d.frameLen + 14) ||| value)
      frameLen := d.frameLen + 1
      pos := 0 }

/-- The body of the decoding loop: the new decoder state, and the character as it is
    left in the buffer. -/
def decodeChar (d : Decoder) (c : Byte) : Decoder × Byte :=
  if c = 0x20#8 then (d, c)
  else
    let c := if 0x61#8 ≤ c ∧ c ≤ 0x7a#8 then c - 0x20#8 else c
    if 0x30#8 ≤ c ∧ c ≤ 0x39#8 then (decodeDigit d (c - 0x30#8), c)
    -- up to 'Z', not 'F'
    else if 0x41#8 ≤ c ∧ c ≤ 0x5a#8 then (decodeDigit d (c - 0x41#8 + 10#8), c)
    else (d, c)

-- `for ( ; tx_read_ptr < cr && frame_len < MTU ; ++tx_read_ptr )`, `count` characters
-- from `cr`.
def decodeLoop : Nat → Nat → Memory → Decoder → Memory × Decoder
  | 0, _, memory, d => (memory, d)
  | count + 1, ptr, memory, d =>
    if d.frameLen < mtu then
      let (d, c) := decodeChar d (memory ptr)
      decodeLoop count (ptr + 1) (Function.update memory ptr c) d
    else (memory, d)

/-! ## Building an skb -/

/-- `netdev_alloc_skb_ip_align`, `skb_reserve(2)`, `skb_put(frame_len + 14)` and the copy of `tmp_pkt`:
    the data that `eth_type_trans` is called with.  `room` is the tailroom of the skb, `none` for
    NULL. -/
def sendFrame (room : Option Nat) (tmpPkt : Memory) (frameLen : Nat) : Except Stuck (List Byte) :=
  match room with
  | none => .error .nullSkb
  | some room =>
    if frameLen + 14 ≤ room - 2 then .ok (loadBytes tmpPkt 0 (frameLen + 14))
    else .error .skbOverPanic

/-! ## `genpipe_write` -/

-- `for ( cr = tx_read_ptr; cr < tx_write_ptr && *cr != '\n'; ++cr );`
def findCr (memory : Memory) : Nat → Nat → Nat
  | ptr, 0 => ptr
  | ptr, count + 1 => if memory ptr = newline then ptr else findCr memory (ptr + 1) count

def writeLine (alloc : Nat → Option Nat) (s : Tx) (cr : Nat) : Except Stuck Tx :=
  let line := loadBytes s.memory s.txReadPtr (cr - s.txReadPtr)
  let (memory, d) := decodeLoop (cr - s.txReadPtr) s.txReadPtr s.memory
    { tmpPkt := s.tmpPkt, frameLen := 0, pos := 0 }
  match sendFrame (alloc (d.frameLen + 14)) d.tmpPkt d.frameLen with
  | .error stuck => .error stuck
  | .ok packet =>
    let s := { s with
      memory
      tmpPkt := d.tmpPkt
      handed := s.handed ++ [line]
      built := s.built ++ [packet]
      txReadPtr := cr + 1 }
    let i := s.txReadPtr - s.txStartPtr
    .ok (if i > 0 then
      { s with
        memory := memcpy s.memory s.txStartPtr s.txReadPtr (s.txWritePtr - s.txReadPtr)
        txReadPtr := s.txReadPtr - i
        txWritePtr := s.txWritePtr - i }
    else s)

/-- `genpipe_write_loop`; `alloc round length` is the skb that round gets. -/
def writeLoop (alloc : Nat → Nat → Option Nat) : Nat → Nat → Tx → Except Stuck Tx
  | fuel, round, s =>
    let cr := findCr s.memory s.txReadPtr (s.txWritePtr - s.txReadPtr)
    if cr = s.txWritePtr then .ok s
    else match fuel with
      | 0 => .error .noFuel
      | fuel + 1 =>
        match writeLine (alloc round) s cr with
        | .error stuck => .error stuck
        | .ok s => writeLoop alloc fuel (round + 1) s

/-- The test of the make-room branch, `tx_write_ptr + count > tx_end_ptr`. -/
def Tx.Overflows (s : Tx) (count : Nat) : Prop := s.txEndPtr < (s.txWritePtr + count) % 2 ^ 64

instance (s : Tx) (count : Nat) : Decidable (s.Overflows count) :=
  inferInstanceAs (Decidable (_ < _))

/-- The make-room branch.  It moves the pending bytes to the start, and then takes them
    off the write pointer as well. -/
def makeRoom (s : Tx) (count : Nat) : Tx :=
  if s.Overflows count then
    let s := { s with
      memory := memcpy s.memory s.txStartPtr s.txReadPtr (s.txWritePtr - s.txStartPtr) }
    -- this is the start, not the end of what was moved
    let s := { s with txWritePtr := s.txWritePtr - (s.txWritePtr - s.txStartPtr) }
    let s := { s with txReadPtr := s.txStartPtr }
    if s.txReadPtr < s.txStartPtr then { s with txReadPtr := s.txStartPtr } else s
  else s

/-- A call of `genpipe_write`: what the process passes, where the user copy faults and
    what the skb allocator does in each round. -/
structure WriteCall where
  buf : List Byte
  fault : Option Nat
  alloc : Nat → Nat → Option Nat

def genpipeWrite (call : WriteCall) (s : Tx) : Except Stuck (Except Errno Nat × Tx) :=
  let s := makeRoom s call.buf.length
  let room := s.txEndPtr - s.txWritePtr
  let count := if call.buf.length > room then room else call.buf.length
  let (left, placed) := copyFromUser call.buf count call.fault
  let s := { s with memory := storeBytes s.memory s.txWritePtr placed }
  if left ≠ 0 then .ok (.error .EFAULT, s)
  else
    let s := { s with txWritePtr := s.txWritePtr + count }
    match writeLoop call.alloc (s.txWritePtr - s.txReadPtr) 0 s with
    | .error stuck => .error stuck
    | .ok s => .ok (.ok count, s)

end TestPrograms.Genpipe
