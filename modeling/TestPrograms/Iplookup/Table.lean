import Mathlib.Logic.Function.Basic
import Mathlib.Data.List.Basic

/-! # The forwarding table of `cuda_iplookup`

`mapping_fib` spreads the entries of the FIB over a table with one cell for each /24,
shorter prefixes first, and `iplookup_host` reads one cell for each address.
-/

namespace TestPrograms.Iplookup

abbrev Word := BitVec 32

-- `struct _fib`
structure Fib where
  ip : Word
  subnet : BitVec 8
  gw : BitVec 8
  deriving DecidableEq, Repr

abbrev Table := Nat → Word

-- `16*1024*1024`
def tableSize : Nat := 16 * 1024 * 1024

inductive Stuck where
  | outOfBounds
  | noFuel
  deriving DecidableEq, Repr

def writeCell (table : Table) (addr : Word) (value : Word) : Except Stuck Table :=
  if addr.toNat < tableSize then .ok (Function.update table addr.toNat value)
  else .error .outOfBounds

def readCell (table : Table) (addr : Word) : Except Stuck Word :=
  if addr.toNat < tableSize then .ok (table addr.toNat) else .error .outOfBounds

/-! ## `mapping_fib` -/

-- `(unsigned int)(1<<(32-subnet))-1`
def hostMask (subnet : Nat) : Word := 1#32 <<< (32 - subnet) - 1#32

def ipStart (entry : Fib) (subnet : Nat) : Word := entry.ip &&& ~~~ hostMask subnet

def ipEnd (entry : Fib) (subnet : Nat) : Word := entry.ip ||| hostMask subnet

/-- `for ( ip=(ip_start>>8); ip<=(ip_end>>8); ++ip)`, from `ip` on; `++ip` wraps. -/
def fillRange (last gw : Word) : Nat → Word → Table → Except Stuck Table
  | fuel, ip, table =>
    if ip ≤ last then
      match fuel with
      | 0 => .error .noFuel
      | fuel + 1 =>
        match writeCell table (ip &&& 0xffffff#32) gw with
        | .error stuck => .error stuck
        | .ok table => fillRange last gw fuel (ip + 1#32) table
    else .ok table

def mapSubnet (fuel subnet : Nat) : List Fib → Table → Except Stuck Table
  | [], table => .ok table
  | entry :: fib, table =>
    if entry.subnet.toNat = subnet then
      match fillRange (ipEnd entry subnet >>> 8) (entry.gw.zeroExtend 32) fuel
          (ipStart entry subnet >>> 8) table with
      | .error stuck => .error stuck
      | .ok table => mapSubnet fuel subnet fib table
    else mapSubnet fuel subnet fib table

def mapSubnets (fuel : Nat) (fib : List Fib) : List Nat → Table → Except Stuck Table
  | [], table => .ok table
  | subnet :: subnets, table =>
    match mapSubnet fuel subnet fib table with
    | .error stuck => .error stuck
    | .ok table => mapSubnets fuel fib subnets table

-- `for (subnet=2; subnet<=24; ++subnet)`.
def mappingFib (fuel : Nat) (fib : List Fib) (table : Table) : Except Stuck Table :=
  mapSubnets fuel fib (List.range' 2 23) table

/-! ## `iplookup_host` -/

def lookupLoop (table : Table) (routing : Nat → Word) :
    Nat → Nat → (Nat → Word) → Except Stuck (Nat → Word)
  | _, 0, results => .ok results
  | i, count + 1, results =>
    match readCell table (routing i >>> 8) with
    | .error stuck => .error stuck
    | .ok value => lookupLoop table routing (i + 1) count (Function.update results i value)

def iplookupHost (table : Table) (routing results : Nat → Word) (routingCount : Nat) :
    Except Stuck (Nat → Word) :=
  lookupLoop table routing 0 routingCount results

end TestPrograms.Iplookup
