import TestPrograms.Foundations.Hex
import TestPrograms.Foundations.Search
import TestPrograms.Genpipe.Module

/-! # Reading `/proc/kallsyms`

`get_table_entry` reads the symbol table in pieces of half its buffer and looks up twelve
symbols and the range of the driver in every two pieces that follow each other.
-/

namespace TestPrograms.Genpipe

open TestPrograms.Foundations

/-! ## What the kernel provides -/

def ascii (text : String) : List Byte := text.toList.map fun c => BitVec.ofNat 8 c.toNat

/-- The offset of the match in `s`; both arguments of the kernel's `memcmp` may hold NULs. -/
def strnstr (s pattern : List Byte) : Option Nat := firstMatch pattern s

def isspace (c : Byte) : Bool := 0x09#8 ≤ c ∧ c ≤ 0x0d#8 ∨ c = 0x20#8 ∨ c = 0xa0#8

def isxdigit (c : Byte) : Bool := (hexDigit? c).isSome

/-- A leading `0x` in base 16. -/
def skipRadix (text : List Byte) : List Byte :=
  if text[0]? = some 0x30#8 ∧ (text[1]? = some 0x78#8 ∨ text[1]? = some 0x58#8) then text.drop 2
  else text

/-- `sscanf` with one `%llx`; `none` where it stores nothing. -/
def sscanf (text : List Byte) : Option Addr :=
  let text := text.dropWhile isspace
  if (text.head?.any isxdigit) then
    some (BitVec.ofNat 64 (hexNumber ((skipRadix text).takeWhile isxdigit)))
  else none

/-! ## The globals -/

/-- `PTYPE_HASH_SIZE` -/
abbrev ptypeHashSize : Nat := 16

inductive Var where
  | kfreeskb
  | devkfreeskbany
  | netdevallocskb
  | netifrx
  | napigroreceive
  | netifreceiveskb
  | ixgbecleanrxirq
  | arprcv
  | iprcv
  | ipv6rcv
  | ptypeall
  | ptypebase (bucket : Fin ptypeHashSize)
  deriving DecidableEq, Repr

structure Globals where
  vars : Var → Addr
  driverTop : Addr
  driverBottom : Addr

/-- The globals and `adr` while the table is read.  `early` lists the look-ups that have
    read memory before `buf`. -/
structure Scan extends Globals where
  adr : Addr
  early : List Var

def Globals.symbols (g : Globals) : Symbols where
  kfreeskb := g.vars .kfreeskb
  devkfreeskbany := g.vars .devkfreeskbany
  netdevallocskb := g.vars .netdevallocskb
  netifrx := g.vars .netifrx
  napigroreceive := g.vars .napigroreceive
  netifreceiveskb := g.vars .netifreceiveskb
  ixgbecleanrxirq := g.vars .ixgbecleanrxirq
  arprcv := g.vars .arprcv
  iprcv := g.vars .iprcv
  ipv6rcv := g.vars .ipv6rcv
  ptypeall := g.vars .ptypeall
  ptypebase := g.vars (.ptypebase 0)
  driverTop := g.driverTop.toNat
  driverBottom := g.driverBottom.toNat

/-! ## The driver's range -/

def driverTag : List Byte := ascii "[ixgbe]\n"

-- `while (*ptr != '\n' && ptr > buf) --ptr;`
def lineStart (buf : List Byte) : Nat → Nat
  | 0 => 0
  | ptr + 1 => if buf[ptr + 1]? = some newline then ptr + 1 else lineStart buf ptr

def widen (adr : Addr) (s : Scan) : Scan :=
  let s := if adr < s.driverTop ∨ s.driverTop = 0#64 then { s with driverTop := adr } else s
  if s.driverBottom < adr ∨ s.driverBottom = 0#64 then { s with driverBottom := adr } else s

def driverRange (buf : List Byte) (s : Scan) : Scan :=
  match strnstr buf driverTag with
  | none => s
  | some offset =>
    let ptr := lineStart buf offset
    if ptr ≠ 0 then
      -- `adr` keeps its value where there is no number
      let s := { s with adr := (sscanf (buf.drop (ptr + 1))).getD s.adr }
      widen s.adr s
    else s

/-! ## The look-ups -/

structure Lookup where
  pattern : List Byte
  var : Var
  deriving DecidableEq, Repr

def lookups : List Lookup :=
  [⟨ascii " kfree_skb\n", .kfreeskb⟩,
   ⟨ascii " __dev_kfree_skb_any\n", .devkfreeskbany⟩,
   ⟨ascii " __netdev_alloc_skb\n", .netdevallocskb⟩,
   ⟨ascii " netif_rx\n", .netifrx⟩,
   ⟨ascii " napi_gro_receive\n", .napigroreceive⟩,
   ⟨ascii " netif_receive_skb\n", .netifreceiveskb⟩,
   -- no blank before it and no newline after it
   ⟨ascii "ixgbe_clean_rx_irq", .ixgbecleanrxirq⟩,
   ⟨ascii " arp_rcv\n", .arprcv⟩,
   ⟨ascii " ip_rcv\n", .iprcv⟩,
   ⟨ascii " ipv6_rcv\n", .ipv6rcv⟩,
   ⟨ascii " ptype_all\n", .ptypeall⟩]

-- `ptypebase[0]`
def firstBucket : Var := .ptypebase 0

def baseLookup : Lookup := ⟨ascii " ptype_base\n", firstBucket⟩

section

-- The bytes of the stack below `buf`, as far as `ptr-19` can reach.
variable (below : Fin 19 → Byte)

/-- `if (ptr && !var) sscanf(ptr-19, "%llx", &var);`.  A number that starts before `ptr` ends
    before the newline of the pattern, so nothing is read after `buf`. -/
def lookUp (buf : List Byte) (s : Scan) (l : Lookup) : Scan :=
  match strnstr buf l.pattern with
  | none => s
  | some offset =>
    if s.vars l.var = 0#64 then
      { s with
        vars := Function.update s.vars l.var
          ((sscanf ((List.ofFn below ++ buf).drop offset)).getD (s.vars l.var))
        early := if offset < 19 then l.var :: s.early else s.early }
    else s

-- `ptypebase[i] = (unsigned long long)ptypebase[0] + i*0x10`
def fillBuckets (s : Scan) : Scan :=
  { s with
    vars := fun v => match v with
      | .ptypebase i => s.vars (.ptypebase 0) + BitVec.ofNat 64 (i * 0x10)
      | v => s.vars v }

def lookUpBase (buf : List Byte) (s : Scan) : Scan :=
  if (strnstr buf baseLookup.pattern).isSome ∧ s.vars baseLookup.var = 0#64 then
    fillBuckets (lookUp below buf s baseLookup)
  else s

/-- The body of the loop, between `file_read` and `memcpy`. -/
def examine (s : Scan) (buf : List Byte) : Scan :=
  lookUpBase below buf (lookups.foldl (lookUp below buf) (driverRange buf s))

/-! ## `get_table_entry` -/

variable (fileRead : BitVec 64 → List Byte)

/-- `fileRead` is what `file_read` stores for half a buffer at an offset, nothing where it
    returns zero or an error.  The `int` `pos` is extended to the offset. -/
def loop : Nat → BitVec 32 → List Byte → Scan → Option Scan
  | 0, _, _, _ => none
  | fuel + 1, pos, buf, s =>
    let piece := fileRead (pos.signExtend 64)
    if piece = [] then some s
    else
      let buf := readInto 64 buf piece
      loop fuel (pos + BitVec.ofNat 32 piece.length) (carryOver 64 buf) (examine below s buf)

end

def Globals.clear (g : Globals) : Globals := { g with vars := fun _ => 0#64 }

/-- `fp` is `none` where the file does not open, `buf` and `adr` are not initialised. -/
def getTableEntry (fp : Option (BitVec 64 → List Byte)) (below : Fin 19 → Byte) (buf : List Byte)
    (adr : Addr) (fuel : Nat) (g : Globals) : Option (Int × Scan) :=
  let s : Scan := { g.clear with adr, early := [] }
  match fp with
  | none => some (-1, s)
  | some fileRead =>
    match loop below fileRead fuel 0#32 buf s with
    | none => none
    | some s => some (0, s)

/-! ## The run as a fold over the windows -/

theorem getTableEntry_closed (below : Fin 19 → Byte) (buf : List Byte) (adr : Addr) (fuel : Nat)
    (g : Globals) : ∃ s, getTableEntry none below buf adr fuel g = some (-1, s) ∧
      s.symbols = noSymbols g.symbols :=
  ⟨_, rfl, rfl⟩

/-- Reading on from `pos` gives `pieces` one by one and then nothing. -/
def ReadsAs (fileRead : BitVec 64 → List Byte) : BitVec 32 → List (List Byte) → Prop
  | pos, [] => fileRead (pos.signExtend 64) = []
  | pos, piece :: pieces =>
    fileRead (pos.signExtend 64) = piece ∧
      ReadsAs fileRead (pos + BitVec.ofNat 32 piece.length) pieces

/-- A file every read of which is as long as it can be. -/
def wholeFile (text : List Byte) (offset : BitVec 64) : List Byte :=
  (text.drop offset.toNat).take 64

theorem wholeFile_at (text : List Byte) {pos : Nat} (low : pos < 2 ^ 31) :
    wholeFile text ((BitVec.ofNat 32 pos).signExtend 64) = (text.drop pos).take 64 := by
  have small : (BitVec.ofNat 32 pos).toNat = pos := by
    rw [BitVec.toNat_ofNat, Nat.mod_eq_of_lt (by omega)]
  have positive : (BitVec.ofNat 32 pos).msb = false := by
    rw [BitVec.msb_eq_decide, small, decide_eq_false (by omega)]
  rw [wholeFile, BitVec.signExtend_eq_setWidth_of_msb_false positive, BitVec.toNat_setWidth, small,
    Nat.mod_eq_of_lt (by omega)]

theorem reads_from {text : List Byte} (short : text.length < 2 ^ 31) (left : Nat) {pos : Nat}
    (place : pos + left = text.length) :
    ∃ pieces, InPieces 64 (text.drop pos) pieces ∧
      ReadsAs (wholeFile text) (BitVec.ofNat 32 pos) pieces := by
  have here : wholeFile text ((BitVec.ofNat 32 pos).signExtend 64) = (text.drop pos).take 64 :=
    wholeFile_at text (by omega)
  induction left using Nat.strongRecOn generalizing pos with
  | ind left ih =>
    have length : (text.drop pos).length = left := by
      rw [List.length_drop]
      omega
    by_cases done : left = 0
    · have empty := List.eq_nil_of_length_eq_zero (length.trans done)
      rw [empty, List.take_nil] at here
      exact ⟨[], empty ▸ .nil, here⟩
    · by_cases last : left ≤ 64
      · rw [List.take_of_length_le (by omega)] at here
        refine ⟨[text.drop pos], .last (by omega) (by omega), here, ?_⟩
        rw [ReadsAs, length, ← BitVec.ofNat_add, place, wholeFile_at text short, List.drop_length,
          List.take_nil]
      · obtain ⟨pieces, cut, reads⟩ := ih (left - 64) (by omega)
          (show pos + 64 + (left - 64) = text.length by omega) (wholeFile_at text (by omega))
        have full : ((text.drop pos).take 64).length = 64 := by
          rw [List.length_take]
          omega
        refine ⟨(text.drop pos).take 64 :: pieces, ?_, here, ?_⟩
        · have whole := InPieces.cons full cut
          rwa [← List.drop_drop, List.take_append_drop] at whole
        · rwa [full, ← BitVec.ofNat_add]

theorem reads_wholeFile {text : List Byte} (short : text.length < 2 ^ 31) :
    ∃ pieces, InPieces 64 text pieces ∧ ReadsAs (wholeFile text) 0#32 pieces :=
  reads_from short text.length (Nat.zero_add _)

theorem loop_eq_foldl {below : Fin 19 → Byte} {fileRead : BitVec 64 → List Byte} {pos : BitVec 32}
    {pieces : List (List Byte)} (reads : ReadsAs fileRead pos pieces)
    (filled : ∀ piece ∈ pieces, piece ≠ []) {fuel : Nat} (enough : pieces.length < fuel)
    (buf : List Byte) (s : Scan) :
    loop below fileRead fuel pos buf s =
      some ((windows 64 buf pieces).foldl (examine below) s) := by
  induction pieces generalizing pos fuel buf s with
  | nil =>
    cases fuel with
    | zero => simp at enough
    | succ fuel =>
      simp only [ReadsAs] at reads
      simp only [loop, reads, if_true, windows, List.foldl_nil]
  | cons piece pieces ih =>
    cases fuel with
    | zero => simp at enough
    | succ fuel =>
      obtain ⟨here, rest⟩ := reads
      rw [loop, here, if_neg (filled piece List.mem_cons_self), windows, List.foldl_cons]
      exact ih rest (fun p member => filled p (List.mem_cons_of_mem _ member))
        (by simpa using enough) _ _

theorem getTableEntry_eq_foldl {below : Fin 19 → Byte} {fileRead : BitVec 64 → List Byte}
    {text : List Byte} {pieces : List (List Byte)} (cut : InPieces 64 text pieces)
    (reads : ReadsAs fileRead 0#32 pieces) {fuel : Nat} (enough : pieces.length < fuel)
    (buf : List Byte) (adr : Addr) (g : Globals) :
    getTableEntry (some fileRead) below buf adr fuel g =
      some (0, (windows 64 buf pieces).foldl (examine below) { g.clear with adr, early := [] }) := by
  simp only [getTableEntry, loop_eq_foldl reads (cut.filled (by decide)) enough]

end TestPrograms.Genpipe
