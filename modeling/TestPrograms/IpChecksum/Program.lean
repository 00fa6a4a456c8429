import TestPrograms.Foundations.Memory

/-! # `ip_fast_csum`

The inline assembly, one definition for each instruction.  The header is `4 * ihl` bytes
at `iph` that do not run past the end of the address space.
-/

namespace TestPrograms.IpChecksum

open TestPrograms.Foundations
open TestPrograms.Foundations.Memory

abbrev Word := BitVec 32

/-- The operands `%0`, `%1` and `%2` with the flags that are read, and the addresses of the
    bytes that have been loaded. -/
structure Cpu where
  sum : Word
  iph : Nat
  ihl : Word
  cf : Bool
  zf : Bool
  loaded : List Nat
  deriving DecidableEq, Repr

inductive Stuck where
  | noFuel
  deriving DecidableEq, Repr

/-- The operand `disp(%1)`. -/
def operand (memory : Memory) (disp : Nat) (s : Cpu) : Word :=
  BitVec.ofNat 32 (loadWord memory (s.iph + disp) 4)

def touch (disp : Nat) (s : Cpu) : Cpu := { s with loaded := s.loaded ++ List.range' (s.iph + disp) 4 }

def addCarry (x : Word) (carry : Bool) (s : Cpu) : Cpu :=
  let total := s.sum.toNat + x.toNat + carry.toNat
  { s with sum := BitVec.ofNat 32 total, cf := 2 ^ 32 ≤ total, zf := BitVec.ofNat 32 total = 0#32 }

-- `movl disp(%1), %0`
def movlMem (memory : Memory) (disp : Nat) (s : Cpu) : Cpu :=
  touch disp { s with sum := operand memory disp s }

-- `addl disp(%1), %0`
def addl (memory : Memory) (disp : Nat) (s : Cpu) : Cpu :=
  touch disp (addCarry (operand memory disp s) false s)

-- `adcl disp(%1), %0`
def adcl (memory : Memory) (disp : Nat) (s : Cpu) : Cpu :=
  touch disp (addCarry (operand memory disp s) s.cf s)

-- `adcl $0, %0`
def adclZero (s : Cpu) : Cpu := addCarry 0#32 s.cf s

-- `subl $4, %2`
def sublFour (s : Cpu) : Cpu :=
  { s with ihl := s.ihl - 4#32, cf := s.ihl < 4#32, zf := s.ihl = 4#32 }

-- `lea 4(%1), %1`
def leaFour (s : Cpu) : Cpu := { s with iph := s.iph + 4 }

-- `decl %2`, which leaves the carry flag alone.
def decl (s : Cpu) : Cpu := { s with ihl := s.ihl - 1#32, zf := s.ihl - 1#32 = 0#32 }

-- `movl %0, %2`
def movl (s : Cpu) : Cpu := { s with ihl := s.sum }

-- `shrl $16, %0`; the last bit shifted out is the carry.
def shrlSixteen (s : Cpu) : Cpu :=
  { s with sum := s.sum >>> 16, cf := s.sum.getLsbD 15, zf := s.sum >>> 16 = 0#32 }

-- `addw %w2, %w0`: the low halves are added, the high half of `%0` stays.
def addw (s : Cpu) : Cpu :=
  let low : BitVec 16 := s.sum.setWidth 16
  let other : BitVec 16 := s.ihl.setWidth 16
  { s with
    sum := s.sum.extractLsb' 16 16 ++ (low + other)
    cf := 2 ^ 16 ≤ low.toNat + other.toNat
    zf := low + other = 0#16 }

-- `notl %0`
def notl (s : Cpu) : Cpu := { s with sum := ~~~ s.sum }

/-- The instructions from label 1 up to the jump. -/
def round (memory : Memory) (s : Cpu) : Cpu := decl (leaFour (adcl memory 16 s))

-- `1: … jne 1b`
def loop (memory : Memory) : Nat → Cpu → Except Stuck Cpu
  | 0, _ => .error .noFuel
  | fuel + 1, s =>
    let s := round memory s
    if s.zf then .ok s else loop memory fuel s

/-- What is left of the 32-bit carry, and the two halves added. -/
def addHalves (s : Cpu) : Cpu := addw (shrlSixteen (movl (adclZero s)))

/-- The first two instructions; the registers and flags before them are not read. -/
def enter (memory : Memory) (iph : Nat) (ihl : Word) : Cpu :=
  sublFour (movlMem memory 0 { sum := 0#32, iph, ihl, cf := false, zf := false, loaded := [] })

/-- The value returned, and the addresses loaded from. -/
def ipFastCsum (memory : Memory) (fuel : Nat) (iph : Nat) (ihl : Word) :
    Except Stuck (BitVec 16 × List Nat) :=
  let s := enter memory iph ihl
  -- jbe 2f
  if s.cf ∨ s.zf then .ok (s.sum.setWidth 16, s.loaded)
  else
    match loop memory fuel (adcl memory 12 (adcl memory 8 (addl memory 4 s))) with
    | .error stuck => .error stuck
    | .ok s =>
      let s := notl (adclZero (addHalves s))
      .ok (s.sum.setWidth 16, s.loaded)

end TestPrograms.IpChecksum
