import ITrace.Misc.Mem

/-!
# A memory that logs its writes

A `Logged` memory keeps the addresses that were written, so that a program that stays inside an
object can be told from one that writes outside it what was there before.
-/

namespace ITrace

/-- A memory, and the addresses written so far. -/
structure Logged (α : Type*) where
  mem : Mem α
  written : List Nat

namespace Logged

variable {α : Type*}

/-- The memory before any write. -/
def start (m : Mem α) : Logged α := ⟨m, []⟩

/-- `bs` written from address `a` on. -/
def write (l : Logged α) (a : Nat) (bs : List α) : Logged α :=
  ⟨l.mem.store a bs, l.written ++ List.range' a bs.length⟩

@[simp] theorem start_mem (m : Mem α) : (start m).mem = m := rfl

@[simp] theorem start_written (m : Mem α) : (start m).written = [] := rfl

@[simp] theorem write_mem (l : Logged α) (a : Nat) (bs : List α) :
    (l.write a bs).mem = l.mem.store a bs := rfl

theorem mem_written_write {l : Logged α} {a x : Nat} {bs : List α} :
    x ∈ (l.write a bs).written ↔ x ∈ l.written ∨ a ≤ x ∧ x < a + bs.length := by
  rw [write, List.mem_append, List.mem_range'_1]

@[simp] theorem write_nil (l : Logged α) (a : Nat) : l.write a [] = l := by
  simp [write]

/-- Two writes, one right behind the other, are one write. -/
theorem write_write (l : Logged α) (a : Nat) (bs cs : List α) :
    (l.write a bs).write (a + bs.length) cs = l.write a (bs ++ cs) := by
  simp only [write, Mem.store_store, List.length_append, List.append_assoc]
  rw [← List.range'_append_1]

end Logged

end ITrace
