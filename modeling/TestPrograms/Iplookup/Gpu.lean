import TestPrograms.Foundations.Runs
import TestPrograms.Iplookup.Table

/-! # `iplookup_gpu`

Every thread of the grid runs the kernel for its part of the array.  A schedule says which
thread goes on at each moment, by one turn of its loop.
-/

namespace TestPrograms.Iplookup

-- `gridDim.x` and `blockDim.x`
structure Grid where
  gridDim : Word
  blockDim : Word
  deriving DecidableEq, Repr

-- `blockIdx.x` and `threadIdx.x`
structure Thread where
  blockIdx : Word
  threadIdx : Word
  deriving DecidableEq, Repr

def Grid.Runs (grid : Grid) (thread : Thread) : Prop :=
  thread.blockIdx < grid.gridDim ∧ thread.threadIdx < grid.blockDim

inductive Fault where
  | overflow
  | divisionByZero
  | outOfBounds
  deriving DecidableEq, Repr

/-! ## `int` arithmetic -/

def int (x : Int) : Except Fault Int :=
  if -0x80000000 ≤ x ∧ x ≤ 0x7fffffff then .ok x else .error .overflow

def intMul (x y : Int) : Except Fault Int := int (x * y)

def intAdd (x y : Int) : Except Fault Int := int (x + y)

/-- Division truncates. -/
def intDiv (x y : Int) : Except Fault Int :=
  if y = 0 then .error .divisionByZero else int (x.tdiv y)

/-! ## The kernel -/

/-- The products and sums of the special registers are unsigned, and converted to `int`. -/
def Grid.total (grid : Grid) : Int := (grid.gridDim * grid.blockDim).toInt

def Grid.idx (grid : Grid) (thread : Thread) : Int :=
  (thread.blockIdx * grid.blockDim + thread.threadIdx).toInt

-- `routing_count*idx/total`
def lower (grid : Grid) (routingCount : Int) (thread : Thread) : Except Fault Int :=
  match intMul routingCount (grid.idx thread) with
  | .error fault => .error fault
  | .ok product => intDiv product grid.total

-- `routing_count*(idx+1)/total`
def upper (grid : Grid) (routingCount : Int) (thread : Thread) : Except Fault Int :=
  match intAdd (grid.idx thread) 1 with
  | .error fault => .error fault
  | .ok next =>
    match intMul routingCount next with
    | .error fault => .error fault
    | .ok product => intDiv product grid.total

inductive Progress where
  | ready
  | at (i : Int)
  | done
  deriving DecidableEq, Repr

structure Device where
  progress : Thread → Progress
  results : Nat → Word

def Device.goTo (device : Device) (thread : Thread) (place : Progress) : Device :=
  { device with progress := Function.update device.progress thread place }

def launch (results : Nat → Word) : Device where
  progress := fun _ => .ready
  results := results

section

variable (grid : Grid) (table : Table) (routing : Nat → Word) (routingCount : Int)

-- `results[i] = fib_table[routing_table[i]>>8]`; both arrays hold `routing_count` words.
def lookupCell (i : Int) (results : Nat → Word) : Except Fault (Nat → Word) :=
  if 0 ≤ i ∧ i < routingCount then
    match readCell table (routing i.toNat >>> 8) with
    | .error _ => .error .outOfBounds
    | .ok value => .ok (Function.update results i.toNat value)
  else .error .outOfBounds

/-- The next turn of one thread: into the loop, round it once, or out of it. -/
def turn (thread : Thread) (device : Device) : Except Fault Device :=
  match device.progress thread with
  | .ready =>
    match lower grid routingCount thread with
    | .error fault => .error fault
    | .ok i => .ok (device.goTo thread (.at i))
  | .at i =>
    match upper grid routingCount thread with
    | .error fault => .error fault
    | .ok last =>
      if i < last then
        match lookupCell table routing routingCount i device.results with
        | .error fault => .error fault
        | .ok results =>
          match intAdd i 1 with
          | .error fault => .error fault
          | .ok next => .ok ({ device with results }.goTo thread (.at next))
      else .ok (device.goTo thread .done)
  | .done => .ok device

def iplookupGpu (results : Nat → Word) (schedule : List Thread) : Except Fault Device :=
  Foundations.run (fun device thread => turn grid table routing routingCount thread device)
    (launch results) schedule

end

end TestPrograms.Iplookup
