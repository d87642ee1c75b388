import Mathlib.Order.Basic
import Mathlib.Data.List.Basic

/-!
# Event-driven machines

A machine has a set of initial states and a partial step function: `step s e` is the state
after the event `e`, and `none` where `e` cannot happen in `s`. A concurrent program becomes
a machine whose events say which party moves and what the operating system answers it, so
that a list of events is a schedule and a run of the whole system at once.

The rules below are the ones every proof about a machine goes through: an invariant is shown
once for a step and carried to runs (`run_invariant`, `Reachable.invariant`), a bound on the
number of steps comes from a measure (`run_countP_le`), a property of all states of a run is
traded for a condition on its steps (`always_iff_eachStep`), and one machine refines another
by a map of states (`Reachable.map`).
-/

namespace ITrace

/-- A machine with states `σ` and events `ε`. -/
structure Machine (σ ε : Type*) where
  init : σ → Prop
  step : σ → ε → Option σ

namespace Machine

variable {σ ε τ δ : Type*}

/-- The state after a list of events, `none` if one of them cannot happen. -/
def run (m : Machine σ ε) : σ → List ε → Option σ
  | s, [] => some s
  | s, e :: es => (m.step s e).bind fun s' => m.run s' es

/-- A state some run from an initial state ends in. -/
def Reachable (m : Machine σ ε) (s : σ) : Prop :=
  ∃ s₀ es, m.init s₀ ∧ m.run s₀ es = some s

/-- `P` holds of every state of the run `es` from `s`, the first and the last included. -/
def Always (m : Machine σ ε) (P : σ → Prop) : σ → List ε → Prop
  | s, [] => P s
  | s, e :: es => P s ∧ ∀ s', m.step s e = some s' → m.Always P s' es

/-- `C` holds of every event of the run `es` from `s` in the state it happens in. -/
def EachStep (m : Machine σ ε) (C : σ → ε → Prop) : σ → List ε → Prop
  | _, [] => True
  | s, e :: es => C s e ∧ ∀ s', m.step s e = some s' → m.EachStep C s' es

variable {m : Machine σ ε}

@[simp] theorem run_nil (s : σ) : m.run s [] = some s := rfl

theorem run_cons_iff {s t : σ} {e : ε} {es : List ε} :
    m.run s (e :: es) = some t ↔ ∃ s', m.step s e = some s' ∧ m.run s' es = some t := by
  simp [run, Option.bind_eq_some_iff]

theorem run_append (s : σ) (es fs : List ε) :
    m.run s (es ++ fs) = (m.run s es).bind fun s' => m.run s' fs := by
  induction es generalizing s with
  | nil => rfl
  | cons e es ih =>
    simp only [List.cons_append, run]
    cases m.step s e with
    | none => rfl
    | some s' => exact ih s'

/-- What every step preserves, a run preserves. -/
theorem run_invariant {I : σ → Prop}
    (hstep : ∀ s e s', I s → m.step s e = some s' → I s')
    {s t : σ} {es : List ε} (hs : I s) (hrun : m.run s es = some t) : I t := by
  induction es generalizing s with
  | nil => cases hrun; exact hs
  | cons e es ih =>
    obtain ⟨s', he, hes⟩ := run_cons_iff.mp hrun
    exact ih (hstep s e s' hs he) hes

/-- The same for runs whose steps all meet `C`. -/
theorem run_invariant_of {I : σ → Prop} {C : σ → ε → Prop}
    (hstep : ∀ s e s', I s → C s e → m.step s e = some s' → I s')
    {s t : σ} {es : List ε} (hC : m.EachStep C s es) (hs : I s) (hrun : m.run s es = some t) :
    I t := by
  induction es generalizing s with
  | nil => cases hrun; exact hs
  | cons e es ih =>
    obtain ⟨s', he, hes⟩ := run_cons_iff.mp hrun
    exact ih (hC.2 s' he) (hstep s e s' hs hC.1 he) hes

/-- The same for an invariant that also speaks about the events so far. -/
theorem run_history {I : List ε → σ → Prop}
    (hstep : ∀ es s e s', I es s → m.step s e = some s' → I (es ++ [e]) s')
    {s t : σ} {es : List ε} (hs : I [] s) (hrun : m.run s es = some t) : I es t := by
  have hall : ∀ (es fs : List ε) (s : σ), I fs s → m.run s es = some t → I (fs ++ es) t := by
    intro es
    induction es with
    | nil =>
      intro fs s hs hrun
      cases hrun
      rwa [List.append_nil]
    | cons e es ih =>
      intro fs s hs hrun
      obtain ⟨s', he, hes⟩ := run_cons_iff.mp hrun
      rw [List.append_cons]
      exact ih (fs ++ [e]) s' (hstep fs s e s' hs he) hes
  exact hall es [] s hs hrun

theorem eachStep_true (s : σ) (es : List ε) : m.EachStep (fun _ _ => True) s es := by
  induction es generalizing s with
  | nil => trivial
  | cons e es ih => exact ⟨trivial, fun s' _ => ih s'⟩

/-- A map of states under which every step is a step of another machine carries runs over. -/
theorem run_map {a : Machine τ ε} {f : σ → τ}
    (hstep : ∀ s e s', m.step s e = some s' → a.step (f s) e = some (f s'))
    {s t : σ} {es : List ε} (hrun : m.run s es = some t) : a.run (f s) es = some (f t) := by
  induction es generalizing s with
  | nil =>
    cases hrun
    rfl
  | cons e es ih =>
    obtain ⟨s', he, hes⟩ := run_cons_iff.mp hrun
    exact run_cons_iff.mpr ⟨f s', hstep s e s' he, ih hes⟩

/-- Events that leave the state as it is can be left out of a run. -/
theorem run_filter {I : σ → Prop} {p : ε → Bool}
    (hI : ∀ s e s', I s → m.step s e = some s' → I s')
    (hskip : ∀ s e s', I s → p e = false → m.step s e = some s' → s' = s)
    {s t : σ} {es : List ε} (hs : I s) (hrun : m.run s es = some t) :
    m.run s (es.filter p) = some t := by
  induction es generalizing s with
  | nil => exact hrun
  | cons e es ih =>
    obtain ⟨s', he, hes⟩ := run_cons_iff.mp hrun
    have hrest := ih (hI s e s' hs he) hes
    cases hp : p e with
    | true =>
      rw [List.filter_cons_of_pos hp]
      exact run_cons_iff.mpr ⟨s', he, hrest⟩
    | false =>
      rw [List.filter_cons_of_neg (by simp [hp])]
      rwa [hskip s e s' hs hp he] at hrest

/-- Whether the steps of a given run meet a condition can be computed. -/
instance decidableEachStep (m : Machine σ ε) (C : σ → ε → Prop) [∀ s e, Decidable (C s e)] :
    (s : σ) → (es : List ε) → Decidable (m.EachStep C s es)
  | _, [] => isTrue trivial
  | s, e :: es =>
      match h : m.step s e with
      | none => decidable_of_iff (C s e) (by simp [EachStep, h])
      | some s' =>
          have := decidableEachStep m C s' es
          decidable_of_iff (C s e ∧ m.EachStep C s' es) (by simp [EachStep, h])

theorem Reachable.of_init {s : σ} (h : m.init s) : m.Reachable s := ⟨s, [], h, rfl⟩

theorem Reachable.run {s t : σ} {es : List ε} (hs : m.Reachable s) (hrun : m.run s es = some t) :
    m.Reachable t := by
  obtain ⟨s₀, fs, h₀, hfs⟩ := hs
  exact ⟨s₀, fs ++ es, h₀, by rw [run_append, hfs]; exact hrun⟩

theorem Reachable.step {s t : σ} {e : ε} (hs : m.Reachable s) (he : m.step s e = some t) :
    m.Reachable t :=
  hs.run (run_cons_iff.mpr ⟨t, he, rfl⟩ : m.run s [e] = some t)

theorem Reachable.invariant {I : σ → Prop} (hinit : ∀ s, m.init s → I s)
    (hstep : ∀ s e s', I s → m.step s e = some s' → I s') {s : σ} (hs : m.Reachable s) : I s := by
  obtain ⟨s₀, es, h₀, hes⟩ := hs
  exact run_invariant hstep (hinit s₀ h₀) hes

/-- If no step raises `μ` and every event that satisfies `p` lowers it, then a run holds at most
`μ` of its first state such events. -/
theorem run_countP_le {I : σ → Prop} {C : σ → ε → Prop} {p : ε → Bool} {μ : σ → Nat}
    (hI : ∀ s e s', I s → C s e → m.step s e = some s' → I s')
    (hμ : ∀ s e s', I s → C s e → m.step s e = some s' → μ s' + (if p e then 1 else 0) ≤ μ s)
    {s t : σ} {es : List ε} (hC : m.EachStep C s es) (hs : I s) (hrun : m.run s es = some t) :
    μ t + es.countP p ≤ μ s := by
  induction es generalizing s with
  | nil => cases hrun; simp
  | cons e es ih =>
    obtain ⟨s', he, hes⟩ := run_cons_iff.mp hrun
    have hrest := ih (hC.2 s' he) (hI s e s' hs hC.1 he) hes
    have hhead := hμ s e s' hs hC.1 he
    rw [List.countP_cons]
    omega

theorem Always.head {P : σ → Prop} {s : σ} {es : List ε} (h : m.Always P s es) : P s := by
  cases es with
  | nil => exact h
  | cons e es => exact h.1

theorem Always.mono {P Q : σ → Prop} (hPQ : ∀ s, P s → Q s) {s : σ} {es : List ε}
    (h : m.Always P s es) : m.Always Q s es := by
  induction es generalizing s with
  | nil => exact hPQ s h
  | cons e es ih => exact ⟨hPQ s h.1, fun s' he => ih (h.2 s' he)⟩

/-- The last state of a run is one of its states. -/
theorem Always.last {P : σ → Prop} {s t : σ} {es : List ε} (h : m.Always P s es)
    (hrun : m.run s es = some t) : P t := by
  induction es generalizing s with
  | nil => cases hrun; exact h
  | cons e es ih =>
    obtain ⟨s', he, hes⟩ := run_cons_iff.mp hrun
    exact ih (h.2 s' he) hes

/-- A property that holds at first and survives every step that meets `C` holds all along a run
whose steps meet `C`. -/
theorem always_of_eachStep {I P : σ → Prop} {C : σ → ε → Prop}
    (hI : ∀ s e s', I s → m.step s e = some s' → I s')
    (hstep : ∀ s e s', I s → P s → C s e → m.step s e = some s' → P s')
    {s : σ} {es : List ε} (hs : I s) (hP : P s) (hC : m.EachStep C s es) : m.Always P s es := by
  induction es generalizing s with
  | nil => exact hP
  | cons e es ih =>
    refine ⟨hP, fun s' he => ?_⟩
    exact ih (hI s e s' hs he) (hstep s e s' hs hP hC.1 he) (hC.2 s' he)

/-- Where a step keeps `P` exactly if it meets `C`, a run has `P` in all its states exactly if
all its steps meet `C`. -/
theorem always_iff_eachStep {I P : σ → Prop} {C : σ → ε → Prop}
    (hI : ∀ s e s', I s → m.step s e = some s' → I s')
    (hstep : ∀ s e s', I s → P s → m.step s e = some s' → (P s' ↔ C s e))
    {s t : σ} {es : List ε} (hs : I s) (hP : P s) (hrun : m.run s es = some t) :
    m.Always P s es ↔ m.EachStep C s es := by
  refine ⟨fun h => ?_, fun h => always_of_eachStep hI
    (fun s e s' hs hP hC he => (hstep s e s' hs hP he).mpr hC) hs hP h⟩
  induction es generalizing s with
  | nil => trivial
  | cons e es ih =>
    obtain ⟨s', he, hes⟩ := run_cons_iff.mp hrun
    have hP' := (h.2 s' he).head
    refine ⟨(hstep s e s' hs hP he).mp hP', fun s'' he' => ?_⟩
    cases he.symm.trans he'
    exact ih (hI s e s' hs he) hP' hes (h.2 s' he)

/-- A refinement map: if `f` sends initial states to reachable ones and every step to a run,
possibly an empty one, then it sends reachable states to reachable states. -/
theorem Reachable.map {a : Machine τ δ} {f : σ → τ}
    (hinit : ∀ s, m.init s → a.Reachable (f s))
    (hstep : ∀ s e s', m.Reachable s → m.step s e = some s' →
      ∃ ds, a.run (f s) ds = some (f s')) {s : σ} (hs : m.Reachable s) : a.Reachable (f s) := by
  have both : ∀ s e s', m.Reachable s ∧ a.Reachable (f s) → m.step s e = some s' →
      m.Reachable s' ∧ a.Reachable (f s') := by
    intro s e s' ⟨hr, ha⟩ he
    obtain ⟨ds, hds⟩ := hstep s e s' hr he
    exact ⟨hr.step he, ha.run hds⟩
  exact (hs.invariant (fun s h => ⟨.of_init h, hinit s h⟩) both).2

end Machine

end ITrace
