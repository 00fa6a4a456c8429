import TestPrograms.Foundations.Memory

/-! # Copies to and from user space

A copy of `count` bytes with fault `j` stops before byte `j`; `none` is a copy that
does not fault.  What `copy_from_user` could not copy of its destination it zeroes.
-/

namespace TestPrograms.Linux

open TestPrograms.Foundations

inductive Errno where
  | EFAULT
  deriving DecidableEq, Repr

def copied (fault : Option Nat) (count : Nat) : Nat := min (fault.getD count) count

def Faults (fault : Option Nat) (count : Nat) : Prop := copied fault count < count

instance (fault : Option Nat) (count : Nat) : Decidable (Faults fault count) :=
  inferInstanceAs (Decidable (_ < _))

@[simp] theorem copied_none (count : Nat) : copied none count = count := by simp [copied]

theorem copied_le (fault : Option Nat) (count : Nat) : copied fault count ≤ count :=
  Nat.min_le_right _ _

theorem not_faults_none (count : Nat) : ¬ Faults none count := by simp [Faults]

theorem Faults.left {fault : Option Nat} {count : Nat} (faults : Faults fault count) :
    count - copied fault count ≠ 0 := by
  unfold Faults at faults
  omega

theorem copied_of_not_faults {fault : Option Nat} {count : Nat} (faultless : ¬ Faults fault count) :
    copied fault count = count := by
  have := copied_le fault count
  unfold Faults at faultless
  omega

/-- `copy_from_user(to, buf, count)`: the bytes left and what is placed in the
    destination, of which the part not copied is zeroed. -/
def copyFromUser (buf : List Byte) (count : Nat) (fault : Option Nat) : Nat × List Byte :=
  (count - copied fault count,
    buf.take (copied fault count) ++ List.replicate (count - copied fault count) 0)

theorem copyFromUser_length (buf : List Byte) (count : Nat) (fault : Option Nat)
    (enough : count ≤ buf.length) : (copyFromUser buf count fault).2.length = count := by
  have := copied_le fault count
  simp only [copyFromUser, List.length_append, List.length_take, List.length_replicate]
  omega

end TestPrograms.Linux
