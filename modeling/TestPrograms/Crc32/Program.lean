import TestPrograms.Foundations.Hex

/-! # `crc32`

The program reads hexadecimal digits from its input, skipping all else, up to a `!` or the
end, and prints the frame check sequence of the bytes they spell.
-/

namespace TestPrograms.Crc32

open TestPrograms.Foundations

abbrev Word := BitVec 32

-- `r |= (c & (1<<i)) ? (1<<(7-i)) : 0`
def rev8Bit (c : Byte) (r : Byte) (i : Nat) : Byte :=
  r ||| if c &&& (1#8 <<< i) ≠ 0#8 then 1#8 <<< (7 - i) else 0#8

def rev8 (c : Byte) : Byte := (List.range 8).foldl (rev8Bit c) 0#8

def isxdigit (c : Byte) : Bool :=
  (0x30#8 ≤ c ∧ c ≤ 0x39#8) ∨ (0x41#8 ≤ c ∧ c ≤ 0x46#8) ∨ (0x61#8 ≤ c ∧ c ≤ 0x66#8)

-- `'!'`
def bang : Byte := 0x21#8

-- `while (1) { c = fgetc(stdin); … }`: the next digit and the input behind it, `none` for
-- `goto exit_loop`.
def readDigit : List Byte → Option (Byte × List Byte)
  | [] => none
  | c :: input =>
    if c = bang then none
    else if isxdigit c then some (c, input)
    else readDigit input

/-- `strtol(s, NULL, 16)` of a string that starts with a digit: no blanks, sign or `0x` to
    skip, and the first other character ends the number. -/
def strtol16 (value : Word) : List Byte → Word
  | [] => value
  | c :: s =>
    match hexDigit? c with
    | none => value
    | some digit => strtol16 (value * 16#32 + digit.zeroExtend 32) s

-- `VALUE`
def poly : Word := 0x04c11db7#32

-- `crc0 = (crc0 << 1) ^ ((((crc0 >> 31) & 1) ^ (value & 1)) ? VALUE : 0)`
def crcBit (crc0 value : Word) : Word :=
  crc0 <<< 1 ^^^ if (crc0 >>> 31 &&& 1#32) ^^^ (value &&& 1#32) ≠ 0#32 then poly else 0#32

/-- The bit loop, `count` rounds of it. -/
def crcBits : Nat → Word → Word → Word
  | 0, crc0, _ => crc0
  | count + 1, crc0, value => crcBits count (crcBit crc0 value) (value >>> 1)

theorem readDigit_shorter {input rest : List Byte} {c : Byte}
    (reads : readDigit input = some (c, rest)) : rest.length < input.length := by
  induction input with
  | nil => cases reads
  | cons first input ih =>
    simp only [readDigit] at reads
    split at reads
    · cases reads
    · split at reads
      · cases reads
        exact Nat.lt_succ_self _
      · exact Nat.lt_succ_of_lt (ih reads)

/-- The outer loop; each round uses up two characters at least. -/
def crcLoop (crc0 : Word) (input : List Byte) : Word :=
  match _first : readDigit input with
  | none => crc0
  | some (c0, rest) =>
    match _second : readDigit rest with
    | none => crc0
    | some (c1, rest) => crcLoop (crcBits 8 crc0 (strtol16 0#32 [c0, c1, 0#8])) rest
termination_by input.length
decreasing_by exact Nat.lt_trans (readDigit_shorter _second) (readDigit_shorter _first)

-- `rev8(crc0 >> shift) << shift`; the argument is cut to a byte.
def rev8At (crc0 : Word) (shift : Nat) : Word :=
  (rev8 ((crc0 >>> shift).setWidth 8)).zeroExtend 32 <<< shift

/-- The number that is printed, `crc1 ^ XOR`. -/
def fcs (input : List Byte) : Word :=
  let crc0 := crcLoop 0xffffffff#32 input
  let crc1 := rev8At crc0 24
  let crc1 := crc1 ||| rev8At crc0 16
  let crc1 := crc1 ||| rev8At crc0 8
  let crc1 := crc1 ||| rev8At crc0 0
  crc1 ^^^ 0xffffffff#32

def upperDigit (digit : BitVec 4) : Char :=
  if digit ≤ 9#4 then Char.ofNat (0x30 + digit.toNat) else Char.ofNat (0x41 + digit.toNat - 10)

-- `%08X`
def format08X (word : Word) : List Char :=
  (List.range 8).map fun i => upperDigit (word.extractLsb' (28 - 4 * i) 4)

/-- What the program prints for its standard input. -/
def main (input : List Byte) : List Char :=
  "Ethernet FCS = ".toList ++ format08X (fcs input) ++ ['\n']

end TestPrograms.Crc32
