import ITrace.Server.Proofs.OneWorker

/-!
# Shutting down

On a SIGINT the parent's clear thread signals the `child_pid` of its `ProcSource`, waits and
exits. That number was written when the thread was created and no later fork changes it, so the
thread takes the current child down exactly as long as no fork returns another number.
-/

namespace ITrace.Server

variable {code : ServerCode} {fds : List Int} {s s' t : State} {es : List Event}

/-- The process a clear thread will signal and wait for, if it finds `Stop`, or is at. -/
def ClearThread.target (code : ServerCode) (ct : ClearThread) : Option Int :=
  match ct.pc with
  | .semWait | .check => if code.afterStop ct.childPid = .kill then some ct.childPid else none
  | .kill | .wait => some ct.childPid
  | .reset | .close => none

/-- Every child alive is the one that the parent's clear thread signals and waits for before it
exits; and no child is alive when the parent has exited. -/
def TakesDown (code : ServerCode) (s : State) : Prop :=
  ∀ c ∈ s.children, c.zombie = false →
    s.exited = false ∧ ∀ ct ∈ s.parent.clear, ct.target code = some (c.pid : Int)

/-- The step leaves no child that the clear thread does not know: a fork returns the number in
the `ProcSource` of the clear thread, if there is one; the clear thread is created with the number
of the child alive; and its `wait` does not fail while a child is alive. -/
def PidCurrent (code : ServerCode) (s : State) : Event → Prop
  | .parent (.fork (some pid)) => ∀ ct ∈ s.parent.clear, ct.target code = some (pid : Int)
  | .parent (.createThread true) => ∀ c ∈ s.children, c.zombie = false →
      ClearThread.target code ⟨.semWait, code.sourcePid s.parent.childPid⟩ = some (c.pid : Int)
  | .parentClear (.wait none) => ∀ c ∈ s.children, c.zombie = true
  | _ => True

instance (code : ServerCode) (s : State) : Decidable (TakesDown code s) :=
  inferInstanceAs (Decidable (∀ c ∈ s.children, c.zombie = false →
    s.exited = false ∧ ∀ ct ∈ s.parent.clear, ct.target code = some (c.pid : Int)))

instance (code : ServerCode) (s : State) : (e : Event) → Decidable (PidCurrent code s e)
  | .parent (.fork (some pid)) =>
      inferInstanceAs (Decidable (∀ ct ∈ s.parent.clear, ct.target code = some (pid : Int)))
  | .parent (.createThread true) =>
      inferInstanceAs (Decidable (∀ c ∈ s.children, c.zombie = false →
        ClearThread.target code ⟨.semWait, code.sourcePid s.parent.childPid⟩ =
          some (c.pid : Int)))
  | .parentClear (.wait none) =>
      inferInstanceAs (Decidable (∀ c ∈ s.children, c.zombie = true))
  | .parent (.netsock _) | .parent (.listen _) | .parent (.accept _) | .parent .kill
  | .parent (.wait _) | .parent (.isAlive _) | .parent (.fork none) | .parent .closeFd
  | .parent (.createThread false) => isTrue trivial
  | .parentClear (.semWait _) | .parentClear .check | .parentClear .kill
  | .parentClear (.wait (some _)) | .parentClear .reset | .parentClear .close => isTrue trivial
  | .child _ _ | .childClear _ _ | .childExit _ | .sigint _ | .sigHandler _ => isTrue trivial

/-! ### Steps that no child outlives -/

/-- Every child alive in `s'` was alive in `s`. -/
def LiveFrom (s s' : State) : Prop :=
  ∀ c ∈ s'.children, c.zombie = false → ∃ d ∈ s.children, d.zombie = false ∧ c.pid = d.pid

theorem Inherited.liveFrom (h : Inherited s s') : LiveFrom s s' := by
  intro c hc hlive
  obtain ⟨d, hd, hpid, hz, -⟩ := h c hc
  exact ⟨d, hd, hz ▸ hlive, hpid⟩

theorem LiveFrom.of_children (h : s'.children = s.children) : LiveFrom s s' :=
  (Inherited.of_children h).liveFrom

theorem liveFrom_childStep {pid : Nat} {step : Proc → Option After}
    (h : s.childStep pid step = some s') : LiveFrom s s' := by
  obtain ⟨-, -, -, -, r, -, rfl⟩ := childStep_cases h
  intro c hc hlive
  obtain ⟨d, hd, rfl⟩ := List.mem_map.mp hc
  refine ⟨d, hd, ?_, ?_⟩
  · by_cases hpid : d.pid = pid
    · rw [if_pos hpid] at hlive
      cases r with
      | exits p => cases hlive
      | goesOn p => exact hlive
    · rw [if_neg hpid] at hlive
      exact hlive
  · by_cases hpid : d.pid = pid
    · rw [if_pos hpid, after_pid]
    · rw [if_neg hpid]

theorem childStep_parent {pid : Nat} {step : Proc → Option After}
    (h : s.childStep pid step = some s') : s'.parent = s.parent ∧ s'.exited = s.exited := by
  obtain ⟨-, -, -, -, r, -, rfl⟩ := childStep_cases h
  exact ⟨rfl, rfl⟩

theorem TakesDown.of_live (h : TakesDown code s) (hlive : LiveFrom s s')
    (hexited : s'.exited = s.exited) (hclear : s'.parent.clear = s.parent.clear) :
    TakesDown code s' := by
  intro c hc hz
  obtain ⟨d, hd, hdz, hpid⟩ := hlive c hc hz
  rw [hexited, hclear, hpid]
  exact h d hd hdz

theorem TakesDown.of_childStep (h : TakesDown code s) {pid : Nat}
    {step : Proc → Option After} (hs : s.childStep pid step = some s') :
    TakesDown code s' := by
  obtain ⟨hparent, hexited⟩ := childStep_parent hs
  exact h.of_live (liveFrom_childStep hs) hexited (by rw [hparent])

/-- The same where the clear thread moved on and keeps its target. -/
theorem TakesDown.of_target (h : TakesDown code s) {ct ct' : ClearThread}
    (hct : s.parent.clear = some ct) (hlive : LiveFrom s s') (hexited : s'.exited = s.exited)
    (hct' : s'.parent.clear = some ct')
    (htarget : ∀ pid, ct.target code = some pid → ct'.target code = some pid) :
    TakesDown code s' := by
  intro c hc hz
  obtain ⟨d, hd, hdz, hpid⟩ := hlive c hc hz
  obtain ⟨hrun, ht⟩ := h d hd hdz
  refine ⟨hexited.trans hrun, fun u hu => ?_⟩
  rw [hct'] at hu
  cases hu
  rw [hpid]
  exact htarget d.pid (ht ct hct)

/-- The clear thread that is about to exit leaves no child behind. -/
theorem TakesDown.all_zombies (h : TakesDown code s) {ct : ClearThread}
    (hct : s.parent.clear = some ct) (hnone : ct.target code = none) :
    ∀ c ∈ s.children, c.zombie = true := by
  intro c hc
  by_contra hz
  have htarget := (h c hc (by simpa using hz)).2 ct hct
  rw [hnone] at htarget
  cases htarget

/-! ### What a step preserves -/

theorem acceptLoop_takesDown_iff {e : ParentEvent} (hone : OneWorker s) (hrun : s.exited = false)
    (h : TakesDown code s) (he : acceptLoop code s e = some s') :
    TakesDown code s' ↔ PidCurrent code s (.parent e) := by
  cases acceptLoop_move he with
  | kill =>
    exact iff_of_true (h.of_live (inherited_kill s s.parent.childPid).liveFrom rfl rfl) trivial
  | wait _ hu =>
    obtain ⟨hparent, hexited⟩ := wait_parent hu
    have hu' := h.of_live (inherited_wait hu).liveFrom hexited (by rw [hparent])
    exact iff_of_true (hu'.of_live (.of_children rfl) rfl rfl) trivial
  -- the new child is the only one
  | fork hpc =>
    have hnil := hone.fork hpc
    constructor
    · intro hdown
      exact (hdown _ (by rw [hnil]; exact List.mem_singleton_self _) rfl).2
    · intro hpid c hc _
      rw [hnil, List.nil_append, List.mem_singleton] at hc
      subst hc
      exact ⟨hrun, hpid⟩
  | createClear =>
    constructor
    · intro hdown c hc hlive
      exact (hdown c hc hlive).2 _ rfl
    · intro hpid c hc hlive
      refine ⟨hrun, fun ct hct => ?_⟩
      cases hct
      exact hpid c hc hlive
  | noSocket | socket | listen | acceptFails | accept | isAlive | forkFails | closeConn
  | createClearFails | closeListen =>
    exact iff_of_true (h.of_live (.of_children rfl) rfl rfl) trivial

/-- The clear thread's `wait` that reaps a child reaps the only one. -/
theorem OneWorker.eq_nil_of_wait (hone : OneWorker s) {pid : Nat}
    (h : s.wait (some pid) = some s') : s'.children = [] := by
  obtain ⟨⟨c, hc, hpid, -⟩, h⟩ := Option.ite_none_right_eq_some.mp h
  cases h
  obtain ⟨d, hd⟩ := List.length_eq_one_iff.mp
    (Nat.le_antisymm hone.length_le (List.length_pos_of_mem hc))
  rw [hd, List.mem_singleton] at hc
  subst hc
  simp [hd, hpid]

theorem pidCurrent_of_clearStep {p : Proc} {ct : ClearThread} {e : ClearEvent} {r : After}
    (he : p.clearStep code ct e = some r) : PidCurrent code s (.parentClear e) := by
  cases e with
  | wait answer =>
    obtain ⟨pc, childPid⟩ := ct
    cases pc <;> cases he
  | _ => trivial

theorem parentClear_takesDown_iff {ct : ClearThread} {e : ClearEvent} (hone : OneWorker s)
    (h : TakesDown code s) (hct : s.parent.clear = some ct)
    (he : parentClear code s ct e = some s') :
    TakesDown code s' ↔ PidCurrent code s (.parentClear e) := by
  have hnone : ct.target code = none → s'.children = s.children → TakesDown code s' := by
    intro htarget hsame c hc hlive
    rw [hsame] at hc
    rw [h.all_zombies hct htarget c hc] at hlive
    cases hlive
  cases parentClear_move he with
  | kill hpc =>
    refine iff_of_true (h.of_target hct (inherited_kill s ct.childPid).liveFrom rfl rfl ?_) trivial
    intro pid ht
    simpa only [ClearThread.target, hpc] using ht
  | @wait _ answer u hu =>
    cases answer with
    | none =>
      cases hu
      constructor
      · intro hdown
        exact hdown.all_zombies rfl rfl
      · intro hz c hc hlive
        rw [hz c hc] at hlive
        cases hlive
    | some pid =>
      have hnil := hone.eq_nil_of_wait hu
      refine iff_of_true (fun c hc => ?_) trivial
      exact absurd (hnil ▸ hc : c ∈ []) List.not_mem_nil
  | own hp =>
    refine iff_of_true ?_ (pidCurrent_of_clearStep hp)
    cases clearStep_move hp with
    | wake hpc sem =>
      refine h.of_target hct (.of_children rfl) rfl rfl fun pid ht => ?_
      simpa only [ClearThread.target, hpc] using ht
    | check hpc =>
      refine h.of_target hct (.of_children rfl) rfl rfl fun pid ht => ?_
      have hafter : code.afterStop ct.childPid = .kill := by
        by_contra hne
        simp [ClearThread.target, hpc, hne] at ht
      by_cases hstop : s.parent.sysStatus = .stop
      · simpa [ClearThread.target, hpc, hstop, hafter] using ht
      · simpa [ClearThread.target, hpc, hstop, hafter] using ht
    | reset hpc => exact hnone (by simp [ClearThread.target, hpc]) rfl
  | exit hexit =>
    refine iff_of_true ?_ (pidCurrent_of_clearStep hexit)
    cases clearStep_move hexit with
    | exit hpc => exact hnone (by simp [ClearThread.target, hpc]) rfl

theorem step_takesDown_iff {e : Event} (hone : OneWorker s) (h : TakesDown code s)
    (he : (server code fds).step s e = some s') : TakesDown code s' ↔ PidCurrent code s e := by
  cases server_move he with
  | parent hrun he => exact acceptLoop_takesDown_iff hone hrun h he
  | parentClear hct he => exact parentClear_takesDown_iff hone h hct he
  | parentSignal => exact iff_of_true (h.of_live (.of_children rfl) rfl rfl) trivial
  | parentHandler => exact iff_of_true (h.of_live (.of_children rfl) rfl rfl) trivial
  | kill pid => exact iff_of_true (h.of_live (inherited_kill s pid).liveFrom rfl rfl) trivial
  | child he => exact iff_of_true (h.of_childStep he) trivial
  | childClear he => exact iff_of_true (h.of_childStep he) trivial
  | childExit he => exact iff_of_true (h.of_childStep he) trivial
  | childHandler he => exact iff_of_true (h.of_childStep he) trivial

/-- A run of either server has every child alive in the care of the parent's clear thread, and
none left when the parent has exited, exactly if none of its steps leaves the number in the
`ProcSource` behind. -/
theorem server_takesDown (hrun : (server code fds).run (startState fds) es = some t) :
    (server code fds).Always (TakesDown code) (startState fds) es ↔
      (server code fds).EachStep (PidCurrent code) (startState fds) es := by
  apply Machine.always_iff_eachStep (fun s e s' h he => step_oneWorker h he)
    (fun s e s' hone h he => step_takesDown_iff hone h he) (oneWorker_startState fds) ?_ hrun
  exact fun _ hc => absurd hc List.not_mem_nil

/-- SIGINT reaches the parent, whose clear thread finds `Stop`. -/
def stopped : List Event :=
  [.sigint none, .sigHandler none, .parentClear (.semWait true), .parentClear .check]

theorem server_takesDown_firstClient : ∃ s,
    (server createCmdStatusTransServer [0, 1, 2]).run (startState [0, 1, 2])
      (firstClient ++ stopped) = some s ∧ s.children.length = 1 ∧
      TakesDown createCmdStatusTransServer s := by
  have hrun : ((server createCmdStatusTransServer [0, 1, 2]).run (startState [0, 1, 2])
      (firstClient ++ stopped)).map (fun s => s.children.length) = some 1 := by decide +kernel
  obtain ⟨s, hs, hlen⟩ := Option.map_eq_some_iff.mp hrun
  exact ⟨s, hs, hlen, ((server_takesDown hs).mpr (by decide +kernel)).last hs⟩

/-- The parent of the acquisition server exits and leaves its child alive; the parent of the
command server signals the first child, where the second one is alive. -/
theorem child_not_takenDown :
    (∃ s, (server createAcqDataTransServer [0, 1, 2]).run (startState [0, 1, 2])
      (firstClient ++ stopped ++ [.parentClear .close]) = some s ∧
      s.exited = true ∧ ¬ TakesDown createAcqDataTransServer s) ∧
    ∃ s, (server createCmdStatusTransServer [0, 1, 2]).run (startState [0, 1, 2])
      (firstClient ++ [.parent (.accept (some 5)), .parent .kill, .childExit 100,
        .parent (.wait (some 100)), .parent (.isAlive (.err .ESRCH)),
        .parent (.fork (some 101)), .parent .closeFd] ++ stopped ++ [.parentClear .kill]) =
          some s ∧ ¬ TakesDown createCmdStatusTransServer s := by
  constructor
  · have hrun : ((server createAcqDataTransServer [0, 1, 2]).run (startState [0, 1, 2])
        (firstClient ++ stopped ++ [.parentClear .close])).map (fun s =>
          (s.exited, decide (TakesDown createAcqDataTransServer s))) = some (true, false) := by
      decide +kernel
    obtain ⟨s, hs, h⟩ := Option.map_eq_some_iff.mp hrun
    obtain ⟨hexited, hnot⟩ := Prod.mk.inj h
    exact ⟨s, hs, hexited, of_decide_eq_false hnot⟩
  · have hrun : ((server createCmdStatusTransServer [0, 1, 2]).run (startState [0, 1, 2])
        (firstClient ++ [.parent (.accept (some 5)), .parent .kill, .childExit 100,
          .parent (.wait (some 100)), .parent (.isAlive (.err .ESRCH)),
          .parent (.fork (some 101)), .parent .closeFd] ++ stopped ++
          [.parentClear .kill])).map
            (fun s => decide (TakesDown createCmdStatusTransServer s)) = some false := by
      decide +kernel
    obtain ⟨s, hs, hnot⟩ := Option.map_eq_some_iff.mp hrun
    exact ⟨s, hs, of_decide_eq_false hnot⟩

end ITrace.Server
