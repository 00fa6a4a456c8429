import TestPrograms.Foundations.Memory
import TestPrograms.Foundations.Strtol

/-! # The tests of physical memory

`mmap` writes a range of `/dev/mem` and verifies it, in order and at random, and `membench`
copies to or from one.  Both map the range from the page it begins in.  A run is the list of
what it does: what it prints, the mapping it asks for, and the bytes that it moves, each with
the physical address.
-/

namespace TestPrograms.PhysTest

open TestPrograms.Foundations TestPrograms.Foundations.Memory
open TestPrograms.Foundations.Strtol (strtoul strtoll)

inductive Line where
  | usage
  | address (st : BitVec 64)
  | cannotOpen
  | mapping (start len : BitVec 64)
  | cannotMmap
  | writing (len : BitVec 32)
  | sequential (count : Nat) (len : BitVec 32)
  | random (count : Nat) (len : BitVec 32)
  | unmatch (addr write verify : Nat)
  deriving DecidableEq, Repr

inductive Event where
  | print (line : Line)
  | mmap (length offset : BitVec 64)
  | load (address : Nat) (bytes : List Byte)
  | store (address : Nat) (bytes : List Byte)
  deriving DecidableEq, Repr

structure Run where
  status : Nat
  events : List Event
  deriving DecidableEq, Repr

/-- What a run finds: whether the device opens and maps, what `rand` gives the `n`-th time,
    the bytes of its `n`-th load, and what `malloc` has left in the buffer. -/
structure World where
  opens : Bool
  maps : Bool
  rand : Nat → Nat
  loaded : Nat → Nat → Byte
  buf : Nat → Byte

def bytesOf (contents : Nat → Byte) (count : Nat) : List Byte := (List.range count).map contents

/-! ## `mmap` -/

namespace Mmap

def len : BitVec 32 := 0x400000#32

section

-- `base` is the physical address of `mmaped`, and `words` is `len/4`.
variable (world : World) (base words : Nat)

def write : List Event :=
  .print (.writing len) :: (List.range words).map fun i => .store (base + 4 * i) (wordBytes 4 i)

/-- The `n`-th load of the run, of word `i`. -/
def verify (n i : Nat) : List Event :=
  let d := bytesOf (world.loaded n) 4
  .load (base + 4 * i) d ::
    if bytesWord d ≠ i then [.print (.unmatch i i (bytesWord d))] else []

def sequential (j : Nat) : List Event :=
  .print (.sequential j len) ::
    (List.range words).flatMap fun i => verify world base (j * words + i) i

def random (j : Nat) : List Event :=
  .print (.random j len) ::
    (List.range words).flatMap fun i =>
      let r := world.rand (j * words + i) % words
      verify world base ((10 + j) * words + i) r

def test : List Event :=
  write base words ++ (List.range 10).flatMap (sequential world base words) ++
    (List.range 10).flatMap (random world base words)

end

def main (world : World) : List (List Byte) → Run
  | [_, start] =>
    let st : BitVec 32 := (strtoul start).setWidth 32
    let poff := st % 4096#32
    if world.opens then
      let length := (len + poff).setWidth 64
      let offset := (st - poff).setWidth 64
      let mapping : List Event := [.print (.mapping offset length), .mmap length offset]
      if world.maps then
        -- The accesses are from the start of the mapping.
        { status := 0, events := mapping ++ test world offset.toNat (len.toNat / 4) }
      else { status := 1, events := mapping ++ [.print .cannotMmap] }
    else { status := 1, events := [.print .cannotOpen] }
  | _ => { status := 1, events := [.print .usage] }

end Mmap

/-! ## `membench` -/

namespace Membench

def len : BitVec 64 := 0x8000#64

def w : List Byte := [0x77#8]

def r : List Byte := [0x72#8]

def copies (world : World) (base : Nat) (mode : List Byte) : List Event :=
  (if mode = w then List.replicate 1000 (.store base (bytesOf world.buf len.toNat)) else []) ++
    (if mode = r then
      (List.range 1000).map fun i => .load base (bytesOf (world.loaded i) len.toNat)
    else [])

def main (world : World) : List (List Byte) → Run
  | [_, address, mode] =>
    let st := strtoll address
    let poff := st % 4096#64
    let address : List Event := [.print (.address st)]
    if world.opens then
      let mapping := address ++
        [.print (.mapping (st - poff) (len + poff)), .mmap (len + poff) (st - poff)]
      if world.maps then
        { status := 0, events := mapping ++ copies world (st - poff).toNat mode }
      else { status := 1, events := mapping ++ [.print .cannotMmap] }
    else { status := 1, events := address ++ [.print .cannotOpen] }
  | _ => { status := 1, events := [.print .usage] }

end Membench

end TestPrograms.PhysTest
