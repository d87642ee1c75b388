import Mathlib.Algebra.Ring.Nat
import Mathlib.Data.List.Chain

/-!
# Breaks of a chain

`breaks r a l` counts the elements of `l` that `r` does not relate to their predecessor, that of
the first one being `a`: there are none exactly if `a :: l` is a chain of `r`. A list that comes in
pieces has its breaks within the pieces and at the seams between them.
-/

namespace ITrace

variable {α : Type*} (r : α → α → Prop) [DecidableRel r]

def breaks : α → List α → Nat
  | _, [] => 0
  | a, b :: l => (if r a b then 0 else 1) + breaks b l

/-- The breaks of a piece after its first element. -/
def breaksWithin : List α → Nat
  | [] => 0
  | a :: l => breaks r a l

/-- The breaks at the first elements of the pieces, the last element before them being `a`. -/
def seamBreaks : α → List (List α) → Nat
  | _, [] => 0
  | a, [] :: cs => seamBreaks a cs
  | a, (b :: l) :: cs => (if r a b then 0 else 1) + seamBreaks (l.getLastD b) cs

/-- Of two pieces, the second goes on where the first ends. -/
def Meets (c d : List α) : Prop := ∀ x ∈ c.getLast?, ∀ y ∈ d.head?, r x y

instance decidableMeets (c d : List α) : Decidable (Meets r c d) :=
  inferInstanceAs (Decidable (∀ x ∈ c.getLast?, ∀ y ∈ d.head?, r x y))

variable {r}

@[simp] theorem breaks_nil (a : α) : breaks r a [] = 0 := rfl

theorem breaks_cons (a b : α) (l : List α) :
    breaks r a (b :: l) = (if r a b then 0 else 1) + breaks r b l := rfl

theorem breaks_append (a : α) (xs ys : List α) :
    breaks r a (xs ++ ys) = breaks r a xs + breaks r (xs.getLastD a) ys := by
  induction xs generalizing a with
  | nil => simp
  | cons b xs ih =>
    rw [List.cons_append, breaks_cons, breaks_cons, ih, List.getLastD_cons, Nat.add_assoc]

/-- The breaks of a list in pieces. -/
theorem breaks_flatten (a : α) (cs : List (List α)) :
    breaks r a cs.flatten = seamBreaks r a cs + (cs.map (breaksWithin r)).sum := by
  induction cs generalizing a with
  | nil => rfl
  | cons c cs ih =>
    cases c with
    | nil =>
      rw [List.flatten_cons, List.nil_append, ih, List.map_cons, List.sum_cons, seamBreaks,
        breaksWithin, Nat.zero_add]
    | cons b l =>
      rw [List.flatten_cons, breaks_append, List.getLastD_cons, ih, breaks_cons, List.map_cons,
        List.sum_cons, seamBreaks, breaksWithin]
      omega

omit [DecidableRel r] in
theorem meets_cons_cons (a : α) (l : List α) (b : α) (l' : List α) :
    Meets r (a :: l) (b :: l') ↔ r (l.getLastD a) b := by
  rw [Meets, List.getLast?_cons]
  simp

/-- Without empty pieces, there is no break at a seam exactly if each piece meets the next. -/
theorem seamBreaks_eq_zero_iff {a : α} {l : List α} {cs : List (List α)} (hne : [] ∉ cs) :
    seamBreaks r (l.getLastD a) cs = 0 ↔ ((a :: l) :: cs).IsChain (Meets r) := by
  induction cs generalizing a l with
  | nil => simp [seamBreaks]
  | cons c cs ih =>
    cases c with
    | nil => exact absurd (List.mem_cons_self ..) hne
    | cons b l' =>
      have hrest := ih (a := b) (l := l') fun h => hne (List.mem_cons_of_mem _ h)
      rw [seamBreaks, List.isChain_cons_cons, meets_cons_cons, ← hrest]
      split <;> simp_all

/-- The element before position `i` of the sequence `f`. -/
def predecessor (a : α) (f : Nat → α) : Nat → α
  | 0 => a
  | i + 1 => f i

theorem getLastD_map_range (a : α) (f : Nat → α) (n : Nat) :
    ((List.range n).map f).getLastD a = predecessor a f n := by
  cases n with
  | zero => rfl
  | succ n => simp [List.range_succ, predecessor]

/-- The breaks are the positions whose element `r` does not relate to the one before. -/
theorem breaks_map_range (a : α) (f : Nat → α) (n : Nat) :
    breaks r a ((List.range n).map f) =
      (List.range n).countP fun i => ¬ r (predecessor a f i) (f i) := by
  induction n with
  | zero => rfl
  | succ n ih =>
    rw [List.range_succ, List.map_append, breaks_append, ih, getLastD_map_range, List.countP_append]
    by_cases h : r (predecessor a f n) (f n)
    · simp [breaks_cons, h]
    · simp [breaks_cons, h]

end ITrace
