import ITrace.Misc.Machine
import Mathlib.Data.List.Basic

/-!
# The sequential copy loop

The loop that reads a chunk, writes it piece by piece, and only then reads the next one, until
a write fails. This is what a pipeline with several buffers and several threads is meant to look
like from outside; a pipeline is correct when its states map to states of this loop.
-/

namespace ITrace

/-- The chunks read so far, what is left to write of the last of them, and what was written. -/
structure CopyLoop (α : Type*) where
  read : List (List α)
  pending : List α
  out : List α
  failed : Bool

namespace CopyLoop

variable {α : Type*}

inductive Event (α : Type*) where
  | read (chunk : List α)
  | write (count : Nat)
  | fail

def step (s : CopyLoop α) : Event α → Option (CopyLoop α)
  | .read chunk =>
      if s.pending.isEmpty && !s.failed then
        some { s with read := s.read ++ [chunk], pending := chunk }
      else none
  | .write count =>
      if count ≤ s.pending.length && !s.failed then
        some { s with pending := s.pending.drop count, out := s.out ++ s.pending.take count }
      else none
  | .fail => some { s with failed := true }

def machine (α : Type*) : Machine (CopyLoop α) (Event α) where
  init s := s = ⟨[], [], [], false⟩
  step := step

/-- What was read is what was written and what is still to be written. -/
theorem out_append_pending {s : CopyLoop α} (hs : (machine α).Reachable s) :
    s.out ++ s.pending = s.read.flatten := by
  have hstep : ∀ (s : CopyLoop α) (e : Event α) (s' : CopyLoop α),
      s.out ++ s.pending = s.read.flatten → (machine α).step s e = some s' →
      s'.out ++ s'.pending = s'.read.flatten := by
    intro s e s' h he
    cases e with
    | read chunk =>
      simp only [machine, step, Bool.and_eq_true, List.isEmpty_iff, Option.ite_none_right_eq_some,
        Option.some.injEq] at he
      obtain ⟨⟨hp, -⟩, rfl⟩ := he
      rw [hp, List.append_nil] at h
      simp [h]
    | write count =>
      simp only [machine, step, Option.ite_none_right_eq_some, Option.some.injEq] at he
      obtain ⟨-, rfl⟩ := he
      simpa using h
    | fail =>
      cases he
      exact h
  exact hs.invariant (fun s h => by cases h; rfl) hstep

end CopyLoop

end ITrace
