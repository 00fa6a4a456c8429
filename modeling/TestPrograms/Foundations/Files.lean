import TestPrograms.Foundations.Runs

/-! # Files of single items

A file is read and written one item at a time, at the position that a seek has set.  What it
holds is a store: what every address shows, and what a write leaves.  A program that seeks
before each transfer does to the file what the same program does to the store.
-/

namespace TestPrograms.Foundations

theorem bind_ok {ε α β : Type} {first : Except ε α} {rest : α → Except ε β} {b : β} :
    (first >>= rest) = .ok b ↔ ∃ a, first = .ok a ∧ rest a = .ok b := by
  cases first with
  | error stuck => exact iff_of_false (fun same => by cases same) (fun ⟨_, same, _⟩ => by cases same)
  | ok a => exact ⟨fun same => ⟨a, rfl, same⟩, fun ⟨_, same, returns⟩ => by cases same; exact returns⟩

theorem map_ok {ε α β : Type} {first : Except ε α} {f : α → β} {b : β} :
    first.map f = .ok b ↔ ∃ a, first = .ok a ∧ f a = b := by
  cases first with
  | error stuck => exact iff_of_false (fun same => by cases same) (fun ⟨_, same, _⟩ => by cases same)
  | ok a => simp [Except.map]

/-- The calls on an open file.  A read that fails gives nothing, a write that fails is no
    different to its caller; an error is a call that never returns. -/
structure OpenFile (φ α β ε : Type) where
  lseek : φ → α → φ
  read : φ → Except ε (Option β × φ)
  write : φ → β → Except ε φ

structure Store (μ α β : Type) where
  shown : μ → α → Option β
  stored : μ → α → β → μ

section

variable {φ α β ε μ : Type}

/-- Writes to a store, oldest first. -/
def Store.storeAll (store : Store μ α β) (memory : μ) (writes : List (α × β)) : μ :=
  writes.foldl (fun memory write => store.stored memory write.1 write.2) memory

@[simp] theorem Store.storeAll_nil (store : Store μ α β) (memory : μ) :
    store.storeAll memory [] = memory := rfl

@[simp] theorem Store.storeAll_append (store : Store μ α β) (memory : μ)
    (first second : List (α × β)) :
    store.storeAll memory (first ++ second) = store.storeAll (store.storeAll memory first) second :=
  List.foldl_append

@[simp] theorem Store.storeAll_singleton (store : Store μ α β) (memory : μ) (write : α × β) :
    store.storeAll memory [write] = store.stored memory write.1 write.2 := rfl

/-- Behind a seek the file reads what the store shows, and a write leaves what the store says,
    at the addresses it may be made at: as long as the file holds what it is known to work with. -/
structure OpenFile.Refines (file : OpenFile φ α β ε) (store : Store μ α β) (abs : φ → μ)
    (Known : μ → Prop) (Spares : μ → α → Prop) : Prop where
  read : ∀ {f g : φ} {address : α} {item : Option β}, Known (abs f) →
    file.read (file.lseek f address) = .ok (item, g) →
      item = store.shown (abs f) address ∧ abs g = abs f
  write : ∀ {f g : φ} {address : α} {item : β}, Known (abs f) → Spares (abs f) address →
    file.write (file.lseek f address) item = .ok g → abs g = store.stored (abs f) address item

/-- Every call behind a seek returns. -/
structure OpenFile.Returns (file : OpenFile φ α β ε) : Prop where
  read : ∀ (f : φ) (address : α), ∃ result, file.read (file.lseek f address) = .ok result
  write : ∀ (f : φ) (address : α) (item : β), ∃ g, file.write (file.lseek f address) item = .ok g

end

end TestPrograms.Foundations
