import Mathlib.Logic.Function.Basic
import Mathlib.Data.List.Basic
import Mathlib.Tactic.Ring

/-! # Byte-addressed memory

A memory is a total map from addresses to bytes.  Words are little-endian and of
any number of bytes, so that one set of lemmas serves the eight-byte page-table
entries, the four-byte call displacements and the four-byte checksum loads.
-/

namespace TestPrograms.Foundations

abbrev Byte := BitVec 8

abbrev Memory := Nat → Byte

namespace Memory

/-! ## Runs of bytes -/

def loadBytes (memory : Memory) (address : Nat) : Nat → List Byte
  | 0 => []
  | count + 1 => memory address :: loadBytes memory (address + 1) count

def storeBytes (memory : Memory) (address : Nat) : List Byte → Memory
  | [] => memory
  | byte :: bytes => storeBytes (Function.update memory address byte) (address + 1) bytes

@[simp] theorem loadBytes_length (memory : Memory) (address count : Nat) :
    (loadBytes memory address count).length = count := by
  induction count generalizing address with
  | zero => rfl
  | succ count ih => simp [loadBytes, ih]

theorem loadBytes_getElem (memory : Memory) (address count index : Nat)
    (bound : index < (loadBytes memory address count).length) :
    (loadBytes memory address count)[index] = memory (address + index) := by
  induction count generalizing address index with
  | zero => simp at bound
  | succ count ih =>
    cases index with
    | zero => rfl
    | succ index =>
      simp only [loadBytes, List.getElem_cons_succ]
      rw [ih (address + 1) index (by simpa [loadBytes] using bound)]
      congr 1
      omega

theorem loadBytes_add (memory : Memory) (address first second : Nat) :
    loadBytes memory address (first + second) =
      loadBytes memory address first ++ loadBytes memory (address + first) second := by
  induction first generalizing address with
  | zero => simp [loadBytes]
  | succ first ih =>
    rw [Nat.succ_add]
    simp only [loadBytes, ih, List.cons_append, List.cons.injEq, true_and]
    rw [Nat.add_assoc, Nat.add_comm 1 first]

theorem loadBytes_congr {left right : Memory} {address count : Nat}
    (agree : ∀ a, address ≤ a → a < address + count → left a = right a) :
    loadBytes left address count = loadBytes right address count := by
  induction count generalizing address with
  | zero => rfl
  | succ count ih =>
    simp only [loadBytes, List.cons.injEq]
    exact ⟨agree address (by omega) (by omega), ih fun a low high => agree a (by omega) (by omega)⟩

theorem storeBytes_frame (memory : Memory) (address : Nat) (bytes : List Byte) (a : Nat)
    (outside : a < address ∨ address + bytes.length ≤ a) :
    storeBytes memory address bytes a = memory a := by
  induction bytes generalizing memory address with
  | nil => rfl
  | cons byte bytes ih =>
    simp only [List.length_cons] at outside
    rw [storeBytes, ih _ _ (by omega), Function.update_of_ne (by omega)]

theorem storeBytes_inside (memory : Memory) (address : Nat) (bytes : List Byte) (index : Nat)
    (bound : index < bytes.length) :
    storeBytes memory address bytes (address + index) = bytes[index] := by
  induction bytes generalizing memory address index with
  | nil => simp at bound
  | cons byte bytes ih =>
    cases index with
    | zero => rw [storeBytes, storeBytes_frame _ _ _ _ (by omega)]; simp
    | succ index =>
      have shifted : address + (index + 1) = address + 1 + index := by omega
      rw [storeBytes, shifted, ih _ _ index (by simpa using bound)]
      rfl

/-- What a memory holds after a store, inside and outside its run. -/
theorem storeBytes_apply (memory : Memory) (address : Nat) (bytes : List Byte) (a : Nat) :
    storeBytes memory address bytes a =
      if inside : address ≤ a ∧ a < address + bytes.length then
        bytes[a - address]
      else memory a := by
  by_cases inside : address ≤ a ∧ a < address + bytes.length
  · rw [dif_pos inside]
    have place : address + (a - address) = a := by omega
    have stored := storeBytes_inside memory address bytes (a - address) (by omega)
    rwa [place] at stored
  · rw [dif_neg inside]
    exact storeBytes_frame _ _ _ _ (by omega)

theorem loadBytes_storeBytes (memory : Memory) (address : Nat) (bytes : List Byte) :
    loadBytes (storeBytes memory address bytes) address bytes.length = bytes := by
  apply List.ext_getElem (by simp)
  intro index bound inside
  rw [loadBytes_getElem, storeBytes_inside _ _ _ _ inside]

theorem loadBytes_storeBytes_below {memory : Memory} {address count target : Nat}
    {bytes : List Byte} (below : address + count ≤ target) :
    loadBytes (storeBytes memory target bytes) address count = loadBytes memory address count :=
  loadBytes_congr fun _ _ high => storeBytes_frame _ _ _ _ (by omega)

theorem storeBytes_comm (memory : Memory) {first second : Nat} {left right : List Byte}
    (apart : first + left.length ≤ second ∨ second + right.length ≤ first) :
    storeBytes (storeBytes memory first left) second right =
      storeBytes (storeBytes memory second right) first left := by
  funext a
  simp only [storeBytes_apply]
  split
  · -- a byte of the second run is no byte of the first
    rename_i inRight
    rw [dif_neg (show ¬ (first ≤ a ∧ a < first + left.length) by omega)]
  · rfl

theorem storeBytes_loadBytes (memory : Memory) (address count : Nat) :
    storeBytes memory address (loadBytes memory address count) = memory := by
  induction count generalizing address with
  | zero => rfl
  | succ count ih => rw [loadBytes, storeBytes, Function.update_eq_self, ih]

/-! ## Little-endian words -/

/-- The bytes of the `width`-byte little-endian word `value`. -/
def wordBytes : Nat → Nat → List Byte
  | 0, _ => []
  | width + 1, value => BitVec.ofNat 8 value :: wordBytes width (value / 256)

/-- The number a run of bytes spells, lowest byte first. -/
def bytesWord : List Byte → Nat
  | [] => 0
  | byte :: bytes => byte.toNat + 256 * bytesWord bytes

def loadWord (memory : Memory) (address width : Nat) : Nat :=
  bytesWord (loadBytes memory address width)

def storeWord (memory : Memory) (address width value : Nat) : Memory :=
  storeBytes memory address (wordBytes width value)

@[simp] theorem wordBytes_length (width value : Nat) : (wordBytes width value).length = width := by
  induction width generalizing value with
  | zero => rfl
  | succ width ih => simp [wordBytes, ih]

theorem wordBytes_getElem (width value index : Nat) (bound : index < (wordBytes width value).length) :
    (wordBytes width value)[index] = BitVec.ofNat 8 (value / 256 ^ index) := by
  induction width generalizing value index with
  | zero => simp at bound
  | succ width ih =>
    cases index with
    | zero => simp [wordBytes]
    | succ index =>
      simp only [wordBytes, List.getElem_cons_succ]
      rw [ih (value / 256) index (by simpa [wordBytes] using bound), Nat.div_div_eq_div_mul, pow_succ']

theorem bytesWord_wordBytes (width value : Nat) :
    bytesWord (wordBytes width value) = value % 256 ^ width := by
  induction width generalizing value with
  | zero => simp [wordBytes, bytesWord, Nat.mod_one]
  | succ width ih =>
    simp only [wordBytes, bytesWord, ih, BitVec.toNat_ofNat, Nat.reducePow]
    rw [pow_succ, Nat.mul_comm (256 ^ width), Nat.mod_mul]

theorem wordBytes_bytesWord (bytes : List Byte) :
    wordBytes bytes.length (bytesWord bytes) = bytes := by
  induction bytes with
  | nil => rfl
  | cons byte bytes ih =>
    have low : BitVec.ofNat 8 (byte.toNat + 256 * bytesWord bytes) = byte := by
      apply BitVec.eq_of_toNat_eq
      have := byte.isLt
      simp only [BitVec.toNat_ofNat]
      omega
    have high : (byte.toNat + 256 * bytesWord bytes) / 256 = bytesWord bytes := by
      have := byte.isLt
      omega
    simp only [List.length_cons, bytesWord, wordBytes, low, high, ih]

theorem bytesWord_lt (bytes : List Byte) : bytesWord bytes < 256 ^ bytes.length := by
  induction bytes with
  | nil => simp [bytesWord]
  | cons byte bytes ih =>
    have := byte.isLt
    simp only [bytesWord, List.length_cons, pow_succ]
    omega

theorem loadWord_lt (memory : Memory) (address width : Nat) :
    loadWord memory address width < 256 ^ width := by
  simpa [loadWord] using bytesWord_lt (loadBytes memory address width)

theorem loadWord_congr {left right : Memory} {address width : Nat}
    (agree : ∀ a, address ≤ a → a < address + width → left a = right a) :
    loadWord left address width = loadWord right address width := by
  rw [loadWord, loadBytes_congr agree, loadWord]

theorem loadWord_storeWord (memory : Memory) (address width value : Nat) :
    loadWord (storeWord memory address width value) address width = value % 256 ^ width := by
  have loaded := loadBytes_storeBytes memory address (wordBytes width value)
  rw [wordBytes_length] at loaded
  rw [loadWord, storeWord, loaded, bytesWord_wordBytes]

theorem storeWord_frame (memory : Memory) (address width value a : Nat)
    (outside : a < address ∨ address + width ≤ a) :
    storeWord memory address width value a = memory a :=
  storeBytes_frame _ _ _ _ (by simpa using outside)

theorem storeWord_loadWord (memory : Memory) (address width : Nat) :
    storeWord memory address width (loadWord memory address width) = memory := by
  have bytes := wordBytes_bytesWord (loadBytes memory address width)
  rw [loadBytes_length] at bytes
  rw [storeWord, loadWord, bytes, storeBytes_loadBytes]

theorem storeWord_storeWord (memory : Memory) (address width first second : Nat) :
    storeWord (storeWord memory address width first) address width second =
      storeWord memory address width second := by
  funext a
  simp only [storeWord, storeBytes_apply, wordBytes_length]
  split <;> rfl

theorem storeWord_eq_self_iff (memory : Memory) (address width value : Nat)
    (small : value < 256 ^ width) :
    storeWord memory address width value = memory ↔ loadWord memory address width = value := by
  constructor
  · intro same
    have loaded := loadWord_storeWord memory address width value
    rw [same, Nat.mod_eq_of_lt small] at loaded
    exact loaded
  · rintro rfl
    exact storeWord_loadWord memory address width

end Memory

end TestPrograms.Foundations
