import Mathlib.Data.List.Range
import Mathlib.Data.List.Nodup

/-!
# Tokens on a ring

`n` tokens circulate through queues. The tokens are numbered by turn, without end: turn `k` is
the token `k % n`, and a queue that is filled at one end and emptied at the other always holds
the turns of an interval `[lo, hi)`, its `window`. Taking from a queue and putting into it then
only moves a bound, and all a schedule can do is to move the bounds around each other. As long
as all windows lie in one interval of at most `n` turns, no token is in two of them.
-/

namespace ITrace.Ring

variable {α : Type*}

/-- What a queue holds that has been filled with turns up to `hi` and emptied up to `lo`. -/
def window (f : Nat → α) (lo hi : Nat) : List α := (List.range' lo (hi - lo)).map f

@[simp] theorem window_self (f : Nat → α) (k : Nat) : window f k k = [] := by simp [window]

@[simp] theorem length_window (f : Nat → α) (lo hi : Nat) : (window f lo hi).length = hi - lo := by
  simp [window]

theorem window_cons (f : Nat → α) {lo hi : Nat} (h : lo < hi) :
    window f lo hi = f lo :: window f (lo + 1) hi := by
  rw [window, show hi - lo = (hi - (lo + 1)) + 1 by omega, List.range'_succ]
  rfl

/-- Putting the next turn into a queue. -/
theorem window_snoc (f : Nat → α) {lo hi : Nat} (h : lo ≤ hi) :
    window f lo hi ++ [f hi] = window f lo (hi + 1) := by
  rw [window, window, show hi + 1 - lo = (hi - lo) + 1 by omega, List.range'_concat,
    List.map_append]
  simp [Nat.add_sub_cancel' h]

/-- Taking from a queue. -/
theorem window_eq_cons {f : Nat → α} {lo hi : Nat} {x : α} {xs : List α}
    (h : window f lo hi = x :: xs) : lo < hi ∧ x = f lo ∧ xs = window f (lo + 1) hi := by
  have hlt : lo < hi := by
    have := congrArg List.length h
    simp at this
    omega
  rw [window_cons f hlt, List.cons.injEq] at h
  exact ⟨hlt, h.1.symm, h.2.symm⟩

theorem window_append (f : Nat → α) {lo mid hi : Nat} (h₁ : lo ≤ mid) (h₂ : mid ≤ hi) :
    window f lo mid ++ window f mid hi = window f lo hi := by
  have h : List.range' lo (mid - lo) ++ List.range' (lo + (mid - lo)) (hi - mid) = _ :=
    List.range'_append_1
  rw [Nat.add_sub_cancel' h₁, show mid - lo + (hi - mid) = hi - lo by omega] at h
  rw [window, window, window, ← List.map_append, h]

theorem mem_window {f : Nat → α} {lo hi : Nat} {x : α} :
    x ∈ window f lo hi ↔ ∃ k, lo ≤ k ∧ k < hi ∧ f k = x := by
  simp only [window, List.mem_map, List.mem_range'_1]
  constructor
  · rintro ⟨k, hk, rfl⟩
    exact ⟨k, hk.1, by omega, rfl⟩
  · rintro ⟨k, h₁, h₂, rfl⟩
    exact ⟨k, ⟨h₁, by omega⟩, rfl⟩

/-- Two turns less than a revolution apart are different tokens. -/
theorem mod_ne_mod {n j k : Nat} (hjk : j < k) (hk : k < j + n) : j % n ≠ k % n := by
  intro h
  have hdiff : (k - j) % n = 0 := Nat.sub_mod_eq_zero_of_mod_eq h.symm
  rw [Nat.mod_eq_of_lt (by omega)] at hdiff
  omega

/-- A window of at most one revolution holds no token twice. -/
theorem nodup_window {n lo hi : Nat} {f : Nat → α} (h : hi ≤ lo + n)
    (hf : ∀ j k, j % n ≠ k % n → f j ≠ f k) : (window f lo hi).Nodup := by
  refine List.Nodup.map_on ?_ List.nodup_range'
  intro j hj k hk hjk
  rw [List.mem_range'_1] at hj hk
  by_contra hne
  rcases Nat.lt_or_gt_of_ne hne with hlt | hlt
  · exact hf j k (mod_ne_mod hlt (by omega)) hjk
  · exact hf k j (mod_ne_mod hlt (by omega)) hjk.symm

/-- A whole revolution holds every token. -/
theorem mem_window_revolution {n : Nat} (hn : 0 < n) (lo i : Nat) (f : Nat → α)
    (hf : ∀ j k, j % n = k % n → f j = f k) : f i ∈ window f lo (lo + n) := by
  have hlt := Nat.mod_lt (i + (n - lo % n)) hn
  refine mem_window.mpr ⟨lo + (i + (n - lo % n)) % n, by omega, by omega, hf _ _ ?_⟩
  have hlo := Nat.mod_lt lo hn
  have e : lo + (i + (n - lo % n)) = i + (lo / n + 1) * n := by
    have := Nat.div_add_mod lo n
    rw [Nat.add_mul, Nat.mul_comm (lo / n), Nat.one_mul]
    omega
  rw [Nat.add_mod_mod, e, Nat.add_mul_mod_self_right]

end ITrace.Ring
