import Mathlib.Data.List.TakeWhile

/-!
# Maximal runs

`runs p l` are the maximal runs of elements of `l` that are not separators, from left to right:
adjacent separators and those at the ends have nothing between them. A program that skips
separators and then takes the elements up to the next one finds them one by one (`firstRun`).
-/

namespace ITrace

variable {α : Type*} {p : α → Bool}

/-- The maximal runs of elements that do not satisfy `p`. -/
def runs (p : α → Bool) (l : List α) : List (List α) := (l.splitOnP p).filter fun r => !r.isEmpty

@[simp] theorem runs_nil : runs p [] = [] := rfl

/-- A separator parts a list. -/
theorem runs_append_cons {d : α} (hd : p d = true) (xs ys : List α) :
    runs p (xs ++ d :: ys) = runs p xs ++ runs p ys := by
  rw [runs, List.splitOnP_append_cons xs ys hd, List.filter_append, runs, runs]

theorem runs_cons {d : α} (hd : p d = true) (l : List α) : runs p (d :: l) = runs p l :=
  runs_append_cons hd [] l

/-- A list without separators is one run. -/
theorem runs_single {w : List α} (hne : w ≠ []) (hw : ∀ c ∈ w, p c = false) : runs p w = [w] := by
  rw [runs, List.splitOnP_eq_singleton hw]
  simp [hne]

theorem nil_notMem_runs (l : List α) : [] ∉ runs p l := by
  intro h
  have hne := (List.mem_filter.mp h).2
  cases hne

/-- Separators at the beginning are skipped. -/
theorem runs_append {ds : List α} (hds : ∀ d ∈ ds, p d = true) (l : List α) :
    runs p (ds ++ l) = runs p l := by
  induction ds with
  | nil => rfl
  | cons d ds ih =>
    rw [List.cons_append, runs_cons (hds d (List.mem_cons_self ..))]
    apply ih
    intro c hc
    exact hds c (List.mem_cons_of_mem _ hc)

/-- A list from its beginning to the end of its first run. -/
inductive FirstRun (p : α → Bool) : List α → List (List α) → Prop
  | none {ds : List α} (hds : ∀ d ∈ ds, p d = true) : FirstRun p ds []
  | last {ds w : List α} (hds : ∀ d ∈ ds, p d = true) (hne : w ≠ []) (hw : ∀ c ∈ w, p c = false) :
      FirstRun p (ds ++ w) [w]
  | inner {ds w rest : List α} {d : α} (hds : ∀ d ∈ ds, p d = true) (hne : w ≠ [])
      (hw : ∀ c ∈ w, p c = false) (hd : p d = true) :
      FirstRun p (ds ++ (w ++ d :: rest)) (w :: runs p rest)

/-- The runs of a list are its first run, if it has one, and those of what follows. -/
theorem firstRun (l : List α) : FirstRun p l (runs p l) := by
  have hsplit := List.takeWhile_append_dropWhile (p := p) (l := l)
  have hds : ∀ d ∈ l.takeWhile p, p d = true := fun d hd => List.mem_takeWhile_imp hd
  have hhead := List.head?_dropWhile_not p l
  revert hsplit hds hhead
  generalize l.takeWhile p = ds
  generalize l.dropWhile p = m
  rintro rfl hds hhead
  rw [runs_append hds]
  cases m with
  | nil =>
    rw [List.append_nil]
    exact .none hds
  | cons c m =>
    have hc : p c = false := by simpa using hhead
    have hsplit := List.takeWhile_append_dropWhile (p := fun x => !p x) (l := c :: m)
    have hw : ∀ x ∈ (c :: m).takeWhile (fun x => !p x), p x = false := by
      intro x hx
      simpa using List.mem_takeWhile_imp hx
    have hne : (c :: m).takeWhile (fun x => !p x) ≠ [] := by simp [hc]
    have hhead := List.head?_dropWhile_not (fun x => !p x) (c :: m)
    revert hsplit hw hne hhead
    generalize (c :: m).takeWhile (fun x => !p x) = w
    generalize (c :: m).dropWhile (fun x => !p x) = rest
    intro hsplit hw hne hhead
    rw [← hsplit]
    cases rest with
    | nil =>
      rw [List.append_nil, runs_single hne hw]
      exact .last hds hne hw
    | cons d rest =>
      have hd : p d = true := by simpa using hhead
      rw [runs_append_cons hd, runs_single hne hw]
      exact .inner hds hne hw hd

theorem splitOnP_elements (l : List α) : ∀ r ∈ l.splitOnP p, ∀ c ∈ r, c ∈ l := by
  induction l with
  | nil => simp [List.splitOnP_nil]
  | cons x l ih =>
    rw [List.splitOnP_cons_eq_if_modifyHead]
    cases hl : l.splitOnP p with
    | nil => exact absurd hl (List.splitOnP_ne_nil p l)
    | cons r rs =>
      rw [hl] at ih
      have hr := ih r (List.mem_cons_self ..)
      split
      · intro r' hr' c hc
        rcases List.mem_cons.mp hr' with rfl | hr'
        · cases hc
        · exact List.mem_cons_of_mem _ (ih r' hr' c hc)
      · intro r' hr' c hc
        rcases List.mem_cons.mp hr' with rfl | hr'
        · rcases List.mem_cons.mp hc with rfl | hc
          · exact List.mem_cons_self ..
          · exact List.mem_cons_of_mem _ (hr c hc)
        · exact List.mem_cons_of_mem _ (ih r' (List.mem_cons_of_mem _ hr') c hc)

/-- A run is made of elements of the list. -/
theorem mem_of_mem_runs {l r : List α} (h : r ∈ runs p l) : ∀ c ∈ r, c ∈ l :=
  splitOnP_elements l r (List.mem_filter.mp h).1

theorem length_splitOnP_le (l : List α) : (l.splitOnP p).length ≤ l.length + 1 := by
  induction l with
  | nil => simp [List.splitOnP_nil]
  | cons x l ih =>
    rw [List.splitOnP_cons_eq_if_modifyHead]
    split
    · simpa using ih
    · rw [List.length_modifyHead, List.length_cons]
      omega

theorem length_runs_le (l : List α) : (runs p l).length ≤ l.length + 1 :=
  (List.length_filter_le ..).trans (length_splitOnP_le l)

/-! ### Mapped lists -/

variable {β : Type*}

theorem splitOnP_map (f : β → α) (l : List β) :
    (l.map f).splitOnP p = (l.splitOnP (p ∘ f)).map (List.map f) := by
  induction l with
  | nil => simp [List.splitOnP_nil]
  | cons x l ih =>
    rw [List.map_cons, List.splitOnP_cons_eq_if_modifyHead, List.splitOnP_cons_eq_if_modifyHead, ih]
    cases hl : l.splitOnP (p ∘ f) with
    | nil => exact absurd hl (List.splitOnP_ne_nil _ l)
    | cons r rs =>
      simp only [Function.comp_apply]
      split <;> simp

/-- The runs of a mapped list are those of the list, mapped. -/
theorem runs_map (f : β → α) (l : List β) :
    runs p (l.map f) = (runs (p ∘ f) l).map (List.map f) := by
  rw [runs, splitOnP_map, List.filter_map, runs]
  congr 2
  funext r
  simp

end ITrace
