import Mathlib.Data.List.Nodup
import Mathlib.Data.List.Perm.Basic

/-!
# The last write wins

Actions on a state come in kinds. If actions of different kinds commute, and an action undoes an
earlier one of its own kind up to a relation that all actions respect, then a list of actions has
the effect of the last ones of each kind. Without two of one kind, the order makes no difference
at all.
-/

namespace ITrace

variable {σ α κ : Type*} [DecidableEq κ]

/-- The last action of the kind `k`. -/
def lastOf (kind : α → κ) (k : κ) (as : List α) : Option α :=
  (as.filter fun a => kind a = k).getLast?

/-- Actions of different kinds are independent, and one of the same kind hides the earlier one. -/
structure Overwrites (kind : α → κ) (act : σ → α → σ) (r : σ → σ → Prop) : Prop where
  refl : ∀ s, r s s
  symm : ∀ {s t}, r s t → r t s
  trans : ∀ {s t u}, r s t → r t u → r s u
  congr : ∀ a {s t}, r s t → r (act s a) (act t a)
  comm : ∀ a b s, kind a ≠ kind b → act (act s a) b = act (act s b) a
  absorb : ∀ a b s, kind a = kind b → r (act (act s a) b) (act s b)

section
variable {kind : α → κ} {k : κ} {a b : α} {as bs : List α}

theorem lastOf_cons_of_ne (h : kind a ≠ k) : lastOf kind k (a :: as) = lastOf kind k as := by
  rw [lastOf, List.filter_cons_of_neg (by simpa using h), lastOf]

theorem lastOf_cons_of_eq (h : kind a = k) :
    lastOf kind k (a :: as) = some ((lastOf kind k as).getD a) := by
  rw [lastOf, List.filter_cons_of_pos (by simpa using h), List.getLast?_cons, lastOf]

theorem lastOf_eq_none_iff : lastOf kind k as = none ↔ ∀ a ∈ as, kind a ≠ k := by
  rw [lastOf, List.getLast?_eq_none_iff, List.filter_eq_nil_iff]
  simp

theorem kind_of_lastOf (h : lastOf kind k as = some a) : kind a = k := by
  have hmem := List.mem_of_getLast? h
  simpa using (List.mem_filter.mp hmem).2

/-- Without the actions of one kind, the last ones of the other kinds are the same. -/
theorem lastOf_filter_ne (k k' : κ) (as : List α) :
    lastOf kind k' (as.filter fun a => kind a ≠ k) =
      if k' = k then none else lastOf kind k' as := by
  split
  · next hk =>
    rw [lastOf_eq_none_iff]
    intro a ha
    rw [hk]
    simpa using (List.mem_filter.mp ha).2
  · next hk =>
    rw [lastOf, lastOf, List.filter_filter]
    congr 1
    apply List.filter_congr
    intro a _
    by_cases ha : kind a = k'
    · simp [ha, hk]
    · simp [ha]

end

namespace Overwrites

variable {kind : α → κ} {act : σ → α → σ} {r : σ → σ → Prop} {k : κ} {a : α} {as bs : List α}

omit [DecidableEq κ] in
theorem congr_foldl (h : Overwrites kind act r) (as : List α) {s t : σ} (hst : r s t) :
    r (as.foldl act s) (as.foldl act t) := by
  induction as generalizing s t with
  | nil => exact hst
  | cons a as ih => exact ih (h.congr a hst)

omit [DecidableEq κ] in
/-- An action moves behind actions of other kinds. -/
theorem foldl_act (h : Overwrites kind act r) (has : ∀ b ∈ as, kind b ≠ kind a) (s : σ) :
    as.foldl act (act s a) = act (as.foldl act s) a := by
  induction as generalizing s with
  | nil => rfl
  | cons b as ih =>
    have hb := has b (List.mem_cons_self ..)
    rw [List.foldl_cons, h.comm a b s hb.symm, ih fun c hc => has c (List.mem_cons_of_mem _ hc),
      List.foldl_cons]

/-- The last action of a kind can be made last of all, and the others of its kind left out. -/
theorem foldl_last (h : Overwrites kind act r) (hlast : lastOf kind k as = some a) (s : σ) :
    r (as.foldl act s) (act ((as.filter fun b => kind b ≠ k).foldl act s) a) := by
  induction as generalizing s with
  | nil => cases hlast
  | cons b as ih =>
    have hkind := kind_of_lastOf hlast
    have hothers : ∀ c ∈ as.filter (fun b => kind b ≠ k), kind c ≠ kind a := by
      intro c hc
      rw [hkind]
      simpa using (List.mem_filter.mp hc).2
    by_cases hb : kind b = k
    · rw [List.filter_cons_of_neg (by simpa using hb), List.foldl_cons]
      rw [lastOf_cons_of_eq hb] at hlast
      cases has : lastOf kind k as with
      | none =>
        -- `b` is the only action of its kind
        have hne := lastOf_eq_none_iff.mp has
        rw [has] at hlast
        cases hlast
        have hall : as.filter (fun c => kind c ≠ k) = as := by
          rw [List.filter_eq_self]
          intro c hc
          simpa using hne c hc
        rw [hall, h.foldl_act fun c hc => hkind.symm ▸ hne c hc]
        exact h.refl _
      | some a' =>
        rw [has] at hlast
        cases hlast
        refine h.trans (ih has (act s b)) ?_
        rw [← h.foldl_act hothers, ← h.foldl_act hothers]
        exact h.congr_foldl _ (h.absorb b _ s (hb.trans hkind.symm))
    · rw [List.filter_cons_of_pos (by simpa using hb), List.foldl_cons, List.foldl_cons]
      rw [lastOf_cons_of_ne hb] at hlast
      exact ih hlast (act s b)

/-- Lists with the same last action of every kind have the same effect. -/
theorem foldl_of_lastOf (h : Overwrites kind act r)
    (hlast : ∀ k, lastOf kind k as = lastOf kind k bs) (s : σ) :
    r (as.foldl act s) (bs.foldl act s) := by
  induction hn : as.length using Nat.strongRecOn generalizing as bs with
  | _ n ih =>
    cases as with
    | nil =>
      cases bs with
      | nil => exact h.refl s
      | cons b bs =>
        have hb := hlast (kind b)
        rw [lastOf_cons_of_eq rfl] at hb
        cases hb
    | cons b as =>
      -- the last action of the kind of `b` goes to the end on both sides
      have hb : lastOf kind (kind b) (b :: as) = some ((lastOf kind (kind b) as).getD b) :=
        lastOf_cons_of_eq rfl
      have hbs := (hlast (kind b)).symm.trans hb
      have hshorter : ((b :: as).filter fun c => kind c ≠ kind b).length < n := by
        have hle := List.length_filter_le (fun c => decide (kind c ≠ kind b)) as
        rw [List.filter_cons_of_neg (by simp), ← hn, List.length_cons]
        omega
      have hrest : r (((b :: as).filter fun c => kind c ≠ kind b).foldl act s)
          ((bs.filter fun c => kind c ≠ kind b).foldl act s) := by
        apply ih _ hshorter _ rfl
        intro k'
        rw [lastOf_filter_ne, lastOf_filter_ne, hlast k']
      exact h.trans (h.foldl_last hb s)
        (h.trans (h.congr _ hrest) (h.symm (h.foldl_last hbs s)))

/-- Without two actions of one kind, the order makes no difference. -/
theorem foldl_perm (h : Overwrites kind act r) (hperm : as.Perm bs)
    (hkinds : (as.map kind).Nodup) (s : σ) : as.foldl act s = bs.foldl act s := by
  refine hperm.foldl_eq' (fun a ha b hb t => ?_) s
  by_cases hab : kind a = kind b
  · rw [List.inj_on_of_nodup_map hkinds ha hb hab]
  · exact h.comm a b t hab

end Overwrites

end ITrace
