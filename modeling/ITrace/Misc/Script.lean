import ITrace.Misc.Machine
import Mathlib.Data.Set.Finite.Basic

/-!
# Scripts

A script fixes what the environment answers, for ever: event number `k` is `script k`. A machine
that stops by itself follows a script only as far as it needs. That it stops comes from a bound on
the number of events before, and where only some events count, from there being finitely many of
the others.
-/

namespace ITrace

namespace Machine

variable {σ ε : Type*} {m : Machine σ ε}

/-- The run of the first `k` events of a script. -/
def follow (m : Machine σ ε) (s : σ) (script : Nat → ε) (k : Nat) : Option σ :=
  m.run s ((List.range k).map script)

/-- From `s` on the next event of the script can happen as long as the machine did not stop. -/
def Follows (m : Machine σ ε) (stopped : σ → Prop) (s : σ) (script : Nat → ε) : Prop :=
  ∀ k t, m.follow s script k = some t → ¬ stopped t → ∃ t', m.step t (script k) = some t'

theorem follow_succ (s : σ) (script : Nat → ε) (k : Nat) :
    m.follow s script (k + 1) = (m.follow s script k).bind fun t => m.step t (script k) := by
  rw [follow, List.range_succ, List.map_append, run_append]
  rcases h : m.run s ((List.range k).map script) with _ | t
  · simp [follow, h]
  · simp only [follow, h, Option.bind_some, List.map_cons, List.map_nil, run]
    cases m.step t (script k) <;> rfl

/-- A machine that has stopped before `B` events were made stops after at most `B`. -/
theorem Follows.stops {stopped : σ → Prop} {s : σ} {script : Nat → ε} {B : Nat}
    (h : m.Follows stopped s script)
    (hbound : ∀ k t, m.follow s script k = some t → ¬ stopped t → k < B) :
    ∃ k t, k ≤ B ∧ m.follow s script k = some t ∧ stopped t := by
  by_contra hnever
  have hgoes : ∀ k, k ≤ B → ∃ t, m.follow s script k = some t := by
    intro k
    induction k with
    | zero => exact fun _ => ⟨s, rfl⟩
    | succ k ih =>
      intro hk
      obtain ⟨t, ht⟩ := ih (by omega)
      have hrunning : ¬ stopped t := fun hstop => hnever ⟨k, t, by omega, ht, hstop⟩
      obtain ⟨t', ht'⟩ := h k t ht hrunning
      exact ⟨t', by rw [follow_succ, ht, Option.bind_some, ht']⟩
  obtain ⟨t, ht⟩ := hgoes B (Nat.le_refl B)
  have hrunning : ¬ stopped t := fun hstop => hnever ⟨B, t, Nat.le_refl B, ht, hstop⟩
  exact absurd (hbound B t ht hrunning) (Nat.lt_irrefl B)

end Machine

/-- The beginnings of a script hold a bounded number of events of a kind that occurs in finitely
many places. -/
theorem exists_countP_le {ε : Type*} {p : ε → Bool} {script : Nat → ε}
    (h : {i | p (script i) = true}.Finite) :
    ∃ N, ∀ k, ((List.range k).map script).countP p ≤ N := by
  refine ⟨h.toFinset.card, fun k => ?_⟩
  rw [List.countP_map, List.countP_eq_length_filter,
    ← List.toFinset_card_of_nodup (List.nodup_range.filter _)]
  refine Finset.card_le_card fun i hi => ?_
  have hp := (List.mem_filter.mp (List.mem_toFinset.mp hi)).2
  exact h.mem_toFinset.mpr hp

end ITrace
