import TestPrograms.Foundations.Memory

/-! # `encode` and `player575`

The encoder is a loop over `getchar` and `putchar`.  The player is thirty-one bytes of
assembly, one definition for each instruction of its loop; it reads and writes one byte at a time.
-/

namespace TestPrograms.Player575

open TestPrograms.Foundations

/-! ## `encode.c` -/

/-- `putchar(a)` writes the low byte of `a`. -/
def putchar (a : Int) : Byte := BitVec.ofInt 8 a

/-- `while ( (a=getchar()) > 0) putchar(++a)`; at the end `getchar` returns -1. -/
def encode : List Byte → List Byte
  | [] => []
  | c :: input =>
    let a : Int := c.toNat
    if a > 0 then putchar (a + 1) :: encode input else []

/-! ## `player575.s` -/

abbrev Reg := BitVec 64

structure Cpu where
  rax : Reg
  rdi : Reg
  rsi : Reg
  rdx : Reg
  zf : Bool
  cf : Bool
  stack : List Reg
  /-- The byte at `msg`. -/
  msg : Byte
  stdin : List Byte
  stdout : List Byte
  deriving DecidableEq, Repr

inductive Stuck where
  | noFuel
  | badSyscall
  | emptyStack
  deriving DecidableEq, Repr

/-- The registers are zero when the process starts; `cld` clears a flag that nothing reads. -/
def start (input : List Byte) : Cpu where
  rax := 0
  rdi := 0
  rsi := 0
  rdx := 0
  zf := false
  cf := false
  stack := []
  msg := 0
  stdin := input
  stdout := []

section

-- Where the linker puts `msg`, an address of 32 bits.
variable (msg : BitVec 32)

-- `xorl %eax,%eax`, which clears all of `%rax`
def xorlEax (s : Cpu) : Cpu := { s with rax := 0, zf := true, cf := false }

-- `push %rax`
def pushRax (s : Cpu) : Cpu := { s with stack := s.rax :: s.stack }

-- `pop %rdi`
def popRdi (s : Cpu) : Except Stuck Cpu :=
  match s.stack with
  | [] => .error .emptyStack
  | top :: stack => .ok { s with rdi := top, stack }

-- `movb $1, %dl`
def movbDl (s : Cpu) : Cpu := { s with rdx := s.rdx &&& ~~~0xff#64 ||| 1#64 }

-- `movl $msg, %esi`
def movlEsi (s : Cpu) : Cpu := { s with rsi := msg.setWidth 64 }

/-- `read` and `write` of one byte at `msg`, from the input until it ends and to the output. -/
def syscall (s : Cpu) : Except Stuck Cpu :=
  if s.rax = 0 ∧ s.rdi = 0 ∧ s.rsi = msg.setWidth 64 ∧ s.rdx = 1 then
    match s.stdin with
    | [] => .ok { s with rax := 0 }
    | byte :: stdin => .ok { s with rax := 1, msg := byte, stdin }
  else if s.rax = 1 ∧ s.rdi = 1 ∧ s.rsi = msg.setWidth 64 ∧ s.rdx = 1 then
    .ok { s with rax := 1, stdout := s.stdout ++ [s.msg] }
  else .error .badSyscall

-- `andb %al, %al`
def andbAl (s : Cpu) : Cpu := { s with zf := s.rax.setWidth 8 = 0#8, cf := false }

def cmc (s : Cpu) : Cpu := { s with cf := !s.cf }

def clc (s : Cpu) : Cpu := { s with cf := false }

-- `decb (%esi)`; the address is that of `msg`.
def decbMsg (s : Cpu) : Cpu := { s with msg := s.msg - 1#8, zf := s.msg - 1#8 = 0#8 }

-- `movl %eax, %edi`
def movlEdi (s : Cpu) : Cpu := { s with rdi := (s.rax.setWidth 32).setWidth 64 }

/-- From `loop` to the test for the end of the file. -/
def readStep (s : Cpu) : Except Stuck Cpu :=
  match popRdi (pushRax (xorlEax s)) with
  | .error stuck => .error stuck
  | .ok s =>
    match syscall msg (movlEsi msg (movbDl s)) with
    | .error stuck => .error stuck
    | .ok s => .ok (cmc (andbAl s))

/-- `loop: … jmp loop`; it is left at `exit`, where the breakpoint trap ends the process. -/
def loop : Nat → Cpu → Except Stuck Cpu
  | 0, _ => .error .noFuel
  | fuel + 1, s =>
    match readStep msg s with
    | .error stuck => .error stuck
    | .ok s =>
      if s.zf then .ok (clc s)
      else
        -- `%rax` is 1 from the `read`, the number of `write` and of the standard output
        match syscall msg (movlEdi (decbMsg s)) with
        | .error stuck => .error stuck
        | .ok s => loop fuel s

def player (fuel : Nat) (input : List Byte) : Except Stuck Cpu := loop msg fuel (start input)

end

end TestPrograms.Player575
