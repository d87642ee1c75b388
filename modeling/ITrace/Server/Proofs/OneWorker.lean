import ITrace.Server.Proofs.Moves

/-!
# At most one worker

The parent forks only after the child before is out of the process table. What carries this is
the meaning of `child_pid` at every point of the accept loop: every child in the table is the one
`child_pid` names, so a `child_pid` that is not positive means an empty table, and so does an
`ESRCH`.
-/

namespace ITrace.Server

variable {code : ServerCode} {fds : List Int} {s s' : State}

/-! ### The invariant -/

/-- At most one child is in the table, it is the one `child_pid` names, and none is there when
the parent is about to fork. -/
structure OneWorker (s : State) : Prop where
  length_le : s.children.length ≤ 1
  pid : ∀ c ∈ s.children, (c.pid : Int) = s.parent.childPid ∧ 0 < c.pid
  fork : s.parent.main = .fork → s.children = []
  devFd : s.parent.devFd = -1

theorem OneWorker.of_parent (h : OneWorker s) {p : Proc} (hpid : p.childPid = s.parent.childPid)
    (hdev : p.devFd = s.parent.devFd) (hfork : p.main = .fork → s.children = []) :
    OneWorker { s with parent := p } :=
  ⟨h.length_le, fun c hc => by rw [hpid]; exact h.pid c hc, hfork, hdev.trans h.devFd⟩

/-- A table with the same children in it, or fewer. -/
theorem OneWorker.of_children (h : OneWorker s) {cs : List Child}
    (hlen : cs.length ≤ s.children.length)
    (hmem : ∀ c ∈ cs, ∃ d ∈ s.children, c.pid = d.pid) :
    OneWorker { s with children := cs } := by
  refine ⟨Nat.le_trans hlen h.length_le, ?_, ?_, h.devFd⟩
  · intro c hc
    obtain ⟨d, hd, hpid⟩ := hmem c hc
    rw [hpid]
    exact h.pid d hd
  · intro hfork
    simpa [h.fork hfork] using hlen

theorem OneWorker.kill (h : OneWorker s) (pid : Int) : OneWorker (s.kill pid) := by
  refine h.of_children (by simp) fun c hc => ?_
  obtain ⟨d, hd, hpid, -⟩ := mem_kill (s := s) hc
  exact ⟨d, hd, hpid⟩

theorem OneWorker.wait (h : OneWorker s) {answer : Option Nat} (hw : s.wait answer = some s') :
    OneWorker s' := by
  rcases wait_cases hw with rfl | ⟨pid, -, rfl⟩
  · exact h
  · refine h.of_children (List.length_filter_le _ _) fun c hc => ?_
    exact ⟨c, List.mem_of_mem_filter hc, rfl⟩

theorem OneWorker.childStep (h : OneWorker s) {pid : Nat} {step : Proc → Option After}
    (hs : s.childStep pid step = some s') : OneWorker s' := by
  obtain ⟨-, -, -, -, r, -, rfl⟩ := childStep_cases hs
  refine h.of_children (by simp) fun c hc => ?_
  obtain ⟨d, hd, rfl⟩ := List.mem_map.mp hc
  refine ⟨d, hd, ?_⟩
  split
  · exact after_pid d r
  · rfl

/-- A step of a child alone, when it is the only one. -/
theorem OneWorker.childStep_cases (h : OneWorker s) {pid : Nat}
    {step : Proc → Option After} (hs : s.childStep pid step = some s') :
    ∃ c r, s.children = [c] ∧ c.pid = pid ∧ c.zombie = false ∧ step c.proc = some r ∧
      s' = { s with children := [c.after r] } := by
  obtain ⟨c, hc, hpid, hlive, r, hr, rfl⟩ := Server.childStep_cases hs
  have hone : s.children = [c] := by
    obtain ⟨d, hd⟩ := List.length_eq_one_iff.mp
      (Nat.le_antisymm h.length_le (List.length_pos_of_mem hc))
    rw [hd, List.mem_singleton] at hc
    rw [hd, hc]
  refine ⟨c, r, hone, hpid, hlive, hr, ?_⟩
  simp [hone, hpid]

theorem oneWorker_startState (fds : List Int) : OneWorker (startState fds) :=
  ⟨Nat.zero_le 1, fun _ hc => absurd hc List.not_mem_nil, fun _ => rfl, rfl⟩

/-- Where `child_pid` is not positive no child is in the table. -/
theorem OneWorker.children_eq_nil (h : OneWorker s) (hpid : ¬ s.parent.childPid > 0) :
    s.children = [] := by
  apply List.eq_nil_iff_forall_not_mem.mpr
  intro c hc
  obtain ⟨heq, hpos⟩ := h.pid c hc
  omega

theorem acceptLoop_oneWorker {e : ParentEvent} (h : OneWorker s)
    (he : acceptLoop code s e = some s') : OneWorker s' := by
  cases acceptLoop_move he with
  | noSocket | socket | createClear | createClearFails | closeListen =>
    exact h.of_parent rfl rfl (by simp)
  | listen | closeConn =>
    refine h.of_parent rfl rfl ?_
    simp only
    split <;> simp
  | acceptFails =>
    refine h.of_parent rfl rfl ?_
    simp only
    split
    · simp
    · split <;> simp
  | accept =>
    refine h.of_parent rfl rfl fun hfork => ?_
    by_cases hpos : s.parent.childPid > 0
    · simp [hpos] at hfork
    · exact h.children_eq_nil hpos
  | kill => exact (h.kill s.parent.childPid).of_parent rfl rfl (by simp)
  | wait _ hu => exact (h.wait hu).of_parent rfl rfl (by simp)
  | @isAlive _ answer hgone =>
    refine h.of_parent rfl rfl fun hfork => ?_
    have hesrch : answer = .err .ESRCH := by
      by_contra hne
      have halive : isProcessAlive answer = 1 := by
        cases answer with
        | ok k => rfl
        | err e => cases e <;> first | rfl | exact absurd rfl hne
      simp [halive] at hfork
    apply List.eq_nil_iff_forall_not_mem.mpr
    intro c hc
    exact hgone ⟨hesrch, c, hc, (h.pid c hc).1⟩
  | forkFails hpc =>
    have hnil := h.fork hpc
    refine ⟨by simp [hnil], by simp [hnil], by simp, h.devFd⟩
  | fork hpc hpos =>
    have hnil := h.fork hpc
    refine ⟨by simp [hnil], ?_, by simp, h.devFd⟩
    intro c hc
    rw [hnil, List.nil_append, List.mem_singleton] at hc
    subst hc
    exact ⟨rfl, hpos⟩

theorem parentClear_oneWorker {ct : ClearThread} {e : ClearEvent} (h : OneWorker s)
    (he : parentClear code s ct e = some s') : OneWorker s' := by
  cases parentClear_move he with
  | kill => exact (h.kill ct.childPid).of_parent rfl rfl (h.kill ct.childPid).fork
  | wait _ hu => exact (h.wait hu).of_parent rfl rfl (h.wait hu).fork
  | own hp =>
    obtain ⟨hmain, hpid, hdev, -⟩ := clearStep_main hp
    exact h.of_parent hpid hdev fun hfork => h.fork (hmain ▸ hfork)
  | exit => exact { h with }

theorem step_oneWorker {e : Event} (h : OneWorker s) (he : (server code fds).step s e = some s') :
    OneWorker s' := by
  cases server_move he with
  | parent _ he => exact acceptLoop_oneWorker h he
  | parentClear _ he => exact parentClear_oneWorker h he
  | parentSignal => exact h.of_parent rfl rfl h.fork
  | parentHandler => exact h.of_parent rfl rfl h.fork
  | kill pid => exact h.kill pid
  | child he => exact h.childStep he
  | childClear he => exact h.childStep he
  | childExit he => exact h.childStep he
  | childHandler he => exact h.childStep he

theorem oneWorker_of_reachable (hs : (server code fds).Reachable s) : OneWorker s := by
  refine hs.invariant (fun s h => ?_) fun _ _ _ h he => step_oneWorker h he
  rw [show s = startState fds from h]
  exact oneWorker_startState fds

/-- In every run of either server: when the parent forks, no earlier child is alive or a zombie;
at most one child exists; and at most that one process has the device open. -/
theorem server_oneWorker (hs : (server code fds).Reachable s) :
    (s.parent.main = .fork → s.children = []) ∧ s.children.length ≤ 1 ∧
    s.parent.devFd = -1 ∧ (s.children.filter fun c => c.proc.devFd > 0).length ≤ 1 := by
  have h := oneWorker_of_reachable hs
  exact ⟨h.fork, h.length_le, h.devFd, Nat.le_trans (List.length_filter_le _ _) h.length_le⟩

/-- The first client is served by the child 100. -/
def firstClient : List Event :=
  [.parent (.netsock (some 3)), .parent (.listen true),
   .parent (.accept (some 4)), .parent (.fork (some 100)), .parent .closeFd,
   .parent (.createThread true)]

/-- A first client whose fork fails, a second one with a child, and a third one for whom the
parent waits until this child is gone. -/
def threeClients : List Event :=
  [.parent (.netsock (some 3)), .parent (.listen true),
   .parent (.accept (some 4)), .parent (.fork none), .parent .closeFd,
   .parent (.createThread true),
   .parent (.accept (some 5)), .parent (.fork (some 100)), .parent .closeFd,
   .child 100 .closed, .child 100 (.opened (some 7)),
   .parent (.accept (some 6)), .parent .kill, .childExit 100, .parent (.wait (some 100)),
   .parent (.isAlive (.err .ESRCH))]

theorem server_oneWorker_threeClients : ∃ s,
    (server createCmdStatusTransServer [0, 1, 2]).run (startState [0, 1, 2]) threeClients =
      some s ∧ s.parent.main = .fork ∧ s.children = [] := by
  have hrun : ((server createCmdStatusTransServer [0, 1, 2]).run (startState [0, 1, 2])
      threeClients).map (fun s => s.parent.main) = some .fork := by decide +kernel
  obtain ⟨s, hs, hmain⟩ := Option.map_eq_some_iff.mp hrun
  exact ⟨s, hs, hmain, (server_oneWorker ⟨_, threeClients, rfl, hs⟩).1 hmain⟩

end ITrace.Server
