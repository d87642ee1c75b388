import ITrace.LinuxSocket.NetSetup
import ITrace.LinuxSocket.Proofs.ServerMoves

/-!
# The descriptors of a failed set-up

What the outcomes of the system calls tell about `create_clt_netsock`, `create_srv_netsock` and
`create_netsock_server`: which of them have failed, how often the retry loops went round, and
which descriptor is still open where they return. Of the ways to fail, `inet_pton`, the last
`bind`, `listen` and `accept` leave the socket open.
-/

namespace ITrace.LinuxSocket

open ITrace

variable {before : List Int}

/-- `fd` was opened in a process with the descriptors `before`, and nothing else changed. -/
def Opened (before : List Int) (fd : Int) (fds : List Int) : Prop :=
  0 ≤ fd ∧ fd ∉ before ∧ fds = fd :: before

theorem Opened.ne {fd : Int} {fds : List Int} (h : Opened before fd fds) : fds ≠ before := by
  intro heq
  have hlen := congrArg List.length (h.2.2.symm.trans heq)
  simp at hlen

theorem Opened.close {fd : Int} {fds : List Int} (h : Opened before fd fds) :
    closeDescriptor fds fd = before := by
  obtain ⟨hfd, -, rfl⟩ := h
  rw [closeDescriptor, if_neg (by omega), List.erase_cons_head]

/-- What a function that opens a socket promises about the descriptors where it returns: after
-1 they are what they were, and otherwise it has added the one it returns. -/
def KeepsDescriptors (before : List Int) (ret : Int) (fds : List Int) : Prop :=
  (ret = -1 → fds = before) ∧ (0 ≤ ret → Opened before ret fds)

theorem Opened.keeps {fd : Int} {fds : List Int} (h : Opened before fd fds) :
    KeepsDescriptors before fd fds :=
  ⟨fun hfd => by have := h.1; omega, fun _ => h⟩

theorem keeps_same : KeepsDescriptors before (-1) before := ⟨fun _ => rfl, fun h => by omega⟩

/-! ### `create_clt_netsock` -/

section
variable {c c' : CltNetsock} {es : List CltEvent} {e : CltEvent}

/-- `inet_pton` answered with a negative number. -/
def PtonFailed (es : List CltEvent) : Prop := ∃ ret, .inetPton ret ∈ es ∧ ret < 0

def CltEvent.isConnect : CltEvent → Bool
  | .connect _ => true
  | _ => false

/-- The calls of `connect`. -/
def connects (es : List CltEvent) : Nat := es.countP CltEvent.isConnect

@[simp] theorem connects_concat :
    connects (es ++ [e]) = connects es + if e.isConnect then 1 else 0 := by
  rw [connects, connects, List.countP_append, List.countP_singleton]

theorem ptonFailed_concat :
    PtonFailed (es ++ [e]) ↔ PtonFailed es ∨ ∃ ret, e = .inetPton ret ∧ ret < 0 := by
  simp only [PtonFailed, List.mem_append, List.mem_singleton, or_and_right, exists_or, eq_comm]

/-- What the outcomes `es` tell about a call of `create_clt_netsock`. -/
def CltTold (before : List Int) (es : List CltEvent) (c : CltNetsock) : Prop :=
  match c.pc with
  | .socket => c.fds = before ∧ ¬ PtonFailed es ∧ connects es = 0
  | .inetPton => Opened before c.cltSockfd c.fds ∧ ¬ PtonFailed es ∧ connects es = 0
  | .connect tryCount =>
      Opened before c.cltSockfd c.fds ∧ ¬ PtonFailed es ∧ connects es = tryCount ∧
      tryCount < maxTryConnTimes
  | .returned ret =>
      connects es ≤ maxTryConnTimes ∧
      ((¬ PtonFailed es ∧ KeepsDescriptors before ret c.fds) ∨
        (PtonFailed es ∧ ret = -1 ∧ ∃ fd, Opened before fd c.fds))

theorem step_cltTold (h : CltTold before es c) (he : c.step e = some c') :
    CltTold before (es ++ [e]) c' := by
  unfold CltTold at h
  unfold CltNetsock.step at he
  split at he
  case h_1 heq =>
    rw [heq] at h
    obtain ⟨hfds, hpton, hconn⟩ := h
    cases he
    refine ⟨?_, .inl ⟨?_, ?_⟩⟩
    · simp [connects_concat, hconn, CltEvent.isConnect]
    · simp [ptonFailed_concat, hpton]
    · show KeepsDescriptors before (-1) c.fds
      rw [hfds]
      exact keeps_same
  case h_2 fd heq =>
    rw [heq] at h
    obtain ⟨hfds, hpton, hconn⟩ := h
    obtain ⟨⟨hfd, hfresh⟩, he⟩ := Option.ite_none_right_eq_some.mp he
    cases he
    rw [hfds] at hfresh
    refine ⟨⟨hfd, hfresh, congrArg _ hfds⟩, ?_, ?_⟩
    · simp [ptonFailed_concat, hpton]
    · simp [connects_concat, hconn, CltEvent.isConnect]
  case h_3 ret heq =>
    rw [heq] at h
    obtain ⟨hopened, hpton, hconn⟩ := h
    have hconn' : connects (es ++ [.inetPton ret]) = 0 := by
      simp [connects_concat, hconn, CltEvent.isConnect]
    cases he
    by_cases hneg : ret < 0
    · rw [if_pos hneg]
      refine ⟨by omega, .inr ⟨?_, rfl, _, hopened⟩⟩
      exact ptonFailed_concat.mpr (.inr ⟨ret, rfl, hneg⟩)
    · rw [if_neg hneg]
      refine ⟨hopened, ?_, hconn', by decide⟩
      simp [ptonFailed_concat, hpton, hneg]
  case h_4 tryCount ok heq =>
    rw [heq] at h
    obtain ⟨hopened, hpton, hconn, hlt⟩ := h
    have hpton' : ¬ PtonFailed (es ++ [.connect ok]) := by simp [ptonFailed_concat, hpton]
    have hconn' : connects (es ++ [.connect ok]) = tryCount + 1 := by
      simp [connects_concat, hconn, CltEvent.isConnect]
    cases he
    by_cases hok : ok = true
    · rw [if_pos hok]
      exact ⟨by omega, .inl ⟨hpton', hopened.keeps⟩⟩
    · rw [if_neg hok]
      by_cases hlast : maxTryConnTimes = tryCount + 1
      · rw [if_pos hlast]
        refine ⟨by omega, .inl ⟨hpton', ?_⟩⟩
        show KeepsDescriptors before (-1) (closeDescriptor c.fds c.cltSockfd)
        rw [hopened.close]
        exact keeps_same
      · rw [if_neg hlast]
        exact ⟨hopened, hpton', hconn', by omega⟩
  case h_5 => cases he

theorem cltNetsock_told (hrun : (createCltNetsock before).run ⟨0, before, .socket⟩ es = some c) :
    CltTold before es c := by
  have hstart : CltTold before [] ⟨0, before, .socket⟩ := ⟨rfl, by simp [PtonFailed], rfl⟩
  exact Machine.run_history (fun _ _ _ _ hc he => step_cltTold hc he) hstart hrun

/-- The descriptors are right where the call returns exactly if `inet_pton` did not fail. -/
theorem CltTold.keeps_iff (h : CltTold before es c) :
    (∀ ret, c.pc = .returned ret → KeepsDescriptors before ret c.fds) ↔ ¬ PtonFailed es := by
  unfold CltTold at h
  cases hpc : c.pc with
  | socket | inetPton | connect tryCount =>
    rw [hpc] at h
    exact iff_of_true (fun ret hret => by cases hret) h.2.1
  | returned ret =>
    rw [hpc] at h
    rcases h with ⟨-, ⟨hpton, hkeeps⟩ | ⟨hpton, rfl, fd, hopened⟩⟩
    · refine iff_of_true (fun ret' hret => ?_) hpton
      cases hret
      exact hkeeps
    · refine iff_of_false (fun hall => ?_) (not_not_intro hpton)
      exact hopened.ne ((hall _ rfl).1 rfl)

/-- `connect` is called at most `MAX_TRY_CONN_TIMES` times, and then the call has returned. -/
theorem CltTold.connects_le (h : CltTold before es c) :
    connects es ≤ maxTryConnTimes ∧
      (connects es = maxTryConnTimes → ∃ ret, c.pc = .returned ret) := by
  unfold CltTold at h
  cases hpc : c.pc with
  | socket | inetPton =>
    rw [hpc] at h
    have hnone := h.2.2
    exact ⟨by omega, fun hall => absurd (hnone.symm.trans hall) (by decide)⟩
  | connect tryCount =>
    rw [hpc] at h
    obtain ⟨-, -, hconn, hlt⟩ := h
    exact ⟨by omega, fun hall => by omega⟩
  | returned ret =>
    rw [hpc] at h
    exact ⟨h.1, fun _ => ⟨ret, rfl⟩⟩

end

/-! ### `create_srv_netsock` -/

section
variable {c c' : SrvNetsock} {es : List SrvEvent} {e : SrvEvent}

def SrvEvent.isBind : SrvEvent → Bool
  | .bind _ => true
  | _ => false

/-- The calls of `bind`. -/
def binds (es : List SrvEvent) : Nat := es.countP SrvEvent.isBind

/-- The calls of `bind` that failed. -/
def bindsFailed (es : List SrvEvent) : Nat := es.count (.bind false)

@[simp] theorem binds_concat : binds (es ++ [e]) = binds es + if e.isBind then 1 else 0 := by
  rw [binds, binds, List.countP_append, List.countP_singleton]

@[simp] theorem bindsFailed_concat :
    bindsFailed (es ++ [e]) = bindsFailed es + if e = .bind false then 1 else 0 := by
  rw [bindsFailed, bindsFailed, List.count_append, List.count_singleton]
  simp

/-- What the outcomes `es` tell about a call of `create_srv_netsock`. -/
def SrvTold (before : List Int) (es : List SrvEvent) (c : SrvNetsock) : Prop :=
  match c.pc with
  | .socket => c.fds = before ∧ binds es = 0 ∧ bindsFailed es = 0
  | .bind tryBindCount =>
      Opened before c.srvSockfd c.fds ∧ binds es = tryBindCount ∧
      bindsFailed es = tryBindCount ∧ tryBindCount < maxTryBindTimes
  | .returned ret =>
      binds es ≤ maxTryBindTimes ∧
      ((bindsFailed es < maxTryBindTimes ∧ KeepsDescriptors before ret c.fds ∧
          (ret = -1 ∨ 0 ≤ ret)) ∨
        (maxTryBindTimes ≤ bindsFailed es ∧ ret = -1 ∧ ∃ fd, Opened before fd c.fds))

theorem step_srvTold (h : SrvTold before es c) (he : c.step e = some c') :
    SrvTold before (es ++ [e]) c' := by
  unfold SrvTold at h
  unfold SrvNetsock.step at he
  split at he
  case h_1 heq =>
    rw [heq] at h
    obtain ⟨hfds, hbinds, hfailed⟩ := h
    have hbinds' : binds (es ++ [.socket none]) = 0 := by simp [hbinds, SrvEvent.isBind]
    have hfailed' : bindsFailed (es ++ [.socket none]) = 0 := by simp [hfailed]
    have hmax : 0 < maxTryBindTimes := by decide
    cases he
    refine ⟨by omega, .inl ⟨by omega, ?_, .inl rfl⟩⟩
    show KeepsDescriptors before (-1) c.fds
    rw [hfds]
    exact keeps_same
  case h_2 fd heq =>
    rw [heq] at h
    obtain ⟨hfds, hbinds, hfailed⟩ := h
    obtain ⟨⟨hfd, hfresh⟩, he⟩ := Option.ite_none_right_eq_some.mp he
    cases he
    rw [hfds] at hfresh
    refine ⟨⟨hfd, hfresh, congrArg _ hfds⟩, ?_, ?_, by decide⟩
    · simp [hbinds, SrvEvent.isBind]
    · simp [hfailed]
  case h_3 tryBindCount ok heq =>
    rw [heq] at h
    obtain ⟨hopened, hbinds, hfailed, hlt⟩ := h
    have hbinds' : binds (es ++ [.bind ok]) = tryBindCount + 1 := by
      simp [hbinds, SrvEvent.isBind]
    cases he
    cases ok with
    | true =>
      have hfailed' : bindsFailed (es ++ [.bind true]) = tryBindCount := by simp [hfailed]
      rw [if_pos rfl]
      exact ⟨by omega, .inl ⟨by omega, hopened.keeps, .inr hopened.1⟩⟩
    | false =>
      have hfailed' : bindsFailed (es ++ [.bind false]) = tryBindCount + 1 := by simp [hfailed]
      rw [if_neg (by decide)]
      by_cases hlast : tryBindCount + 1 = maxTryBindTimes
      · rw [if_pos hlast]
        exact ⟨by omega, .inr ⟨by omega, rfl, _, hopened⟩⟩
      · rw [if_neg hlast]
        exact ⟨hopened, hbinds', hfailed', by omega⟩
  case h_4 => cases he

theorem start_srvTold : SrvTold before [] (.start before) := ⟨rfl, rfl, rfl⟩

theorem srvNetsock_told (hrun : (createSrvNetsock before).run (.start before) es = some c) :
    SrvTold before es c :=
  Machine.run_history (fun _ _ _ _ hc he => step_srvTold hc he) start_srvTold hrun

/-- The descriptors are right where the call returns exactly if not all tries to bind failed. -/
theorem SrvTold.keeps_iff (h : SrvTold before es c) :
    (∀ ret, c.pc = .returned ret → KeepsDescriptors before ret c.fds) ↔
      bindsFailed es < maxTryBindTimes := by
  unfold SrvTold at h
  cases hpc : c.pc with
  | socket =>
    rw [hpc] at h
    have hmax : 0 < maxTryBindTimes := by decide
    exact iff_of_true (fun ret hret => by cases hret) (by omega)
  | bind tryBindCount =>
    rw [hpc] at h
    obtain ⟨-, -, hfailed, hlt⟩ := h
    exact iff_of_true (fun ret hret => by cases hret) (by omega)
  | returned ret =>
    rw [hpc] at h
    rcases h with ⟨-, ⟨hfailed, hkeeps, -⟩ | ⟨hfailed, rfl, fd, hopened⟩⟩
    · refine iff_of_true (fun ret' hret => ?_) hfailed
      cases hret
      exact hkeeps
    · refine iff_of_false (fun hall => ?_) (by omega)
      exact hopened.ne ((hall _ rfl).1 rfl)

/-- `bind` is called at most `MAX_TRY_BIND_TIMES` times, and then the call has returned. -/
theorem SrvTold.binds_le (h : SrvTold before es c) :
    binds es ≤ maxTryBindTimes ∧
      (binds es = maxTryBindTimes → ∃ ret, c.pc = .returned ret) := by
  unfold SrvTold at h
  cases hpc : c.pc with
  | socket =>
    rw [hpc] at h
    have hnone := h.2.1
    exact ⟨by omega, fun hall => absurd (hnone.symm.trans hall) (by decide)⟩
  | bind tryBindCount =>
    rw [hpc] at h
    obtain ⟨-, hbinds, -, hlt⟩ := h
    exact ⟨by omega, fun hall => by omega⟩
  | returned ret =>
    rw [hpc] at h
    exact ⟨h.1, fun _ => ⟨ret, rfl⟩⟩

end

/-! ### `create_netsock_server` -/

section
variable {c c' : NetsockServer} {es : List ServerEvent} {e : ServerEvent}
  {hf dataEntity : Mem UInt8}

/-- The outcomes in `create_srv_netsock`. -/
def srvEvents (es : List ServerEvent) : List SrvEvent :=
  es.filterMap fun e => match e with
    | .srv e => some e
    | _ => none

/-- `listen` or `accept` failed. -/
def Interrupted (es : List ServerEvent) : Prop :=
  .server (.listen false) ∈ es ∨ .server (.accept none) ∈ es

theorem interrupted_concat :
    Interrupted (es ++ [e]) ↔
      Interrupted es ∨ e = .server (.listen false) ∨ e = .server (.accept none) := by
  simp only [Interrupted, List.mem_append, List.mem_singleton, eq_comm]
  exact or_or_or_comm

/-- A server that listens on a socket that is open, and whose connections have other numbers. -/
structure Serving (before : List Int) (s : State) : Prop where
  heads : OnlyHeads s
  listenFd_nonneg : 0 ≤ s.listenFd
  listenFd_new : s.listenFd ∉ before
  listenFd_open : s.listenFd ∈ s.fds
  connFd_ne : s.connFd ≠ s.listenFd

/-- The server loop ends only where `listen` or `accept` fails. -/
theorem step_serving {s s' : State} {e : Event} (h : Serving before s)
    (he : createNetsockServer s e = some s') :
    Serving before s' ∧ ((e = .listen false ∨ e = .accept none) ↔ ∃ ret, s'.pc = .returned ret) ∧
      ∀ ret, s'.pc = .returned ret → ret = -1 := by
  obtain ⟨hheads, hnonneg, hnew, hopen, hne⟩ := h
  obtain ⟨hmove, hheads'⟩ := serverMove_of_step hheads he
  cases hmove with
  | listenAgain hpc =>
    refine ⟨⟨hheads', hnonneg, hnew, hopen, ?_⟩, by simp, by simp⟩
    show (if s.connFd > 0 then -1 else s.connFd) ≠ s.listenFd
    split <;> omega
  | listen hpc ok =>
    refine ⟨⟨hheads', hnonneg, hnew, hopen, hne⟩, ?_, ?_⟩
    · cases ok <;> simp
    · cases ok <;> simp [eq_comm]
  | acceptFails hpc =>
    have hother : (-1 : Int) ≠ s.listenFd := by omega
    exact ⟨⟨hheads', hnonneg, hnew, hopen, hother⟩, by simp, by simp [eq_comm]⟩
  | @accept hpc fd stream hfd hfresh =>
    have hother : fd ≠ s.listenFd := by
      rintro rfl
      exact hfresh hopen
    exact ⟨⟨hheads', hnonneg, hnew, List.mem_cons_of_mem _ hopen, hother⟩, by simp, by simp⟩
  | read hpc hpc' hconn hlisten hfds =>
    refine ⟨⟨hheads', ?_, ?_, ?_, ?_⟩, by simp [hpc'], by simp [hpc']⟩
    · rw [hlisten]
      exact hnonneg
    · rw [hlisten]
      exact hnew
    · rw [hlisten, hfds]
      exact hopen
    · rw [hlisten, hconn]
      exact hne
  | headDone hpc => exact ⟨⟨hheads', hnonneg, hnew, hopen, hne⟩, by simp, by simp⟩
  | drop hpc =>
    refine ⟨⟨hheads', hnonneg, hnew, ?_, hne⟩, by simp, by simp⟩
    show s.listenFd ∈ if s.connFd ≠ 0 then s.fds.erase s.connFd else s.fds
    split
    · exact (List.mem_erase_of_ne hne.symm).mpr hopen
    · exact hopen

theorem not_returned_of_step {s s' : State} {e : Event}
    (he : createNetsockServer s e = some s') : ¬ ∃ ret, s.pc = .returned ret := by
  rintro ⟨ret, hpc⟩
  unfold createNetsockServer at he
  rw [hpc] at he
  cases he

/-- What the outcomes `es` tell about a call of `create_netsock_server`. -/
def ServerTold (before : List Int) (es : List ServerEvent) (c : NetsockServer) : Prop :=
  binds (srvEvents es) ≤ maxTryBindTimes ∧
  match c with
  | .creating call =>
      SrvTold before (srvEvents es) call ∧ (∀ ret, call.pc ≠ .returned ret) ∧ ¬ Interrupted es
  | .failed fds =>
      ¬ Interrupted es ∧ (fds = before ↔ bindsFailed (srvEvents es) < maxTryBindTimes)
  | .serving s =>
      bindsFailed (srvEvents es) < maxTryBindTimes ∧ Serving before s ∧
      (Interrupted es ↔ ∃ ret, s.pc = .returned ret) ∧ ∀ ret, s.pc = .returned ret → ret = -1

theorem resume_told {call : SrvNetsock} (h : SrvTold before (srvEvents es) call)
    (hgoes : ¬ Interrupted es) :
    ServerTold before es (NetsockServer.resume hf dataEntity call) := by
  refine ⟨h.binds_le.1, ?_⟩
  unfold NetsockServer.resume
  cases hpc : call.pc with
  | socket | bind tryBindCount => exact ⟨h, fun ret => by simp [hpc], hgoes⟩
  | returned ret =>
    unfold SrvTold at h
    rw [hpc] at h
    rcases h with ⟨-, ⟨hfailed, ⟨hsame, hopened⟩, hret⟩ | ⟨hfailed, rfl, fd, hopened⟩⟩
    · by_cases hneg : ret < 0
      · simp only [hneg, if_true]
        exact ⟨hgoes, iff_of_true (hsame (by omega)) hfailed⟩
      · obtain ⟨hnonneg, hnew, hfds⟩ := hopened (by omega)
        have hmem : ret ∈ call.fds := by
          rw [hfds]
          exact List.mem_cons_self
        have hne : (-1 : Int) ≠ ret := by omega
        simp only [hneg, if_false]
        exact ⟨hfailed, ⟨trivial, hnonneg, hnew, hmem, hne⟩, iff_of_false hgoes (by simp), by simp⟩
    · exact ⟨hgoes, iff_of_false hopened.ne (by omega)⟩

theorem step_serverTold (h : ServerTold before es c)
    (he : NetsockServer.step hf dataEntity c e = some c') : ServerTold before (es ++ [e]) c' := by
  obtain ⟨hbinds, h⟩ := h
  unfold NetsockServer.step at he
  split at he
  case h_1 call e =>
    obtain ⟨htold, -, hgoes⟩ := h
    obtain ⟨call', hcall, rfl⟩ := Option.map_eq_some_iff.mp he
    have hsrv : srvEvents (es ++ [.srv e]) = srvEvents es ++ [e] := by simp [srvEvents]
    apply resume_told
    · rw [hsrv]
      exact step_srvTold htold hcall
    · simpa [interrupted_concat] using hgoes
  case h_2 s e =>
    obtain ⟨hfailed, hserving, hinter, -⟩ := h
    obtain ⟨s', hs', rfl⟩ := Option.map_eq_some_iff.mp he
    have hsrv : srvEvents (es ++ [.server e]) = srvEvents es := by simp [srvEvents]
    obtain ⟨hserving', hends, hret⟩ := step_serving hserving hs'
    have hgoes : ¬ Interrupted es := fun h => not_returned_of_step hs' (hinter.mp h)
    unfold ServerTold
    rw [hsrv]
    refine ⟨hbinds, hfailed, hserving', ?_, hret⟩
    rw [← hends, interrupted_concat]
    simp [hgoes]
  case h_3 => cases he

theorem netsockServer_told {socketInfo : Bool}
    (hrun : (createServer hf dataEntity socketInfo before).run (.start socketInfo before) es =
      some c) : ServerTold before es c := by
  have hnone : ¬ Interrupted [] := by simp [Interrupted]
  have hstart : ServerTold before [] (.start socketInfo before) := by
    refine ⟨Nat.zero_le _, ?_⟩
    cases socketInfo
    · exact ⟨hnone, iff_of_true rfl (by decide)⟩
    · exact ⟨start_srvTold, fun ret => by simp [SrvNetsock.start], hnone⟩
  exact Machine.run_history (fun _ _ _ _ hc he => step_serverTold hc he) hstart hrun

theorem result_serving {s : State} {ret : Int} {fds : List Int} :
    (NetsockServer.serving s).result = some (ret, fds) ↔ s.pc = .returned ret ∧ s.fds = fds := by
  cases hpc : s.pc <;> simp [NetsockServer.result, hpc]

/-- Where the call returns -1 the descriptors are what they were exactly if not all tries to bind,
no `listen` and no `accept` failed. -/
theorem ServerTold.keeps_iff (h : ServerTold before es c) :
    (∀ fds, c.result = some (-1, fds) → fds = before) ↔
      bindsFailed (srvEvents es) < maxTryBindTimes ∧ ¬ Interrupted es := by
  obtain ⟨-, h⟩ := h
  cases c with
  | creating call =>
    obtain ⟨htold, hrunning, hgoes⟩ := h
    refine iff_of_true (fun fds hresult => by cases hresult) ⟨?_, hgoes⟩
    exact htold.keeps_iff.mp fun ret hpc => absurd hpc (hrunning ret)
  | failed fds =>
    obtain ⟨hgoes, hsame⟩ := h
    constructor
    · intro hall
      exact ⟨hsame.mp (hall fds rfl), hgoes⟩
    · rintro ⟨hfailed, -⟩ fds' hresult
      cases hresult
      exact hsame.mpr hfailed
  | serving s =>
    obtain ⟨hfailed, hserving, hinter, hret⟩ := h
    constructor
    · intro hall
      refine ⟨hfailed, fun hi => ?_⟩
      obtain ⟨ret, hpc⟩ := hinter.mp hi
      obtain rfl := hret ret hpc
      have hsame : s.fds = before := hall s.fds (result_serving.mpr ⟨hpc, rfl⟩)
      exact hserving.listenFd_new (hsame ▸ hserving.listenFd_open)
    · rintro ⟨-, hgoes⟩ fds hresult
      exact absurd (hinter.mpr ⟨_, (result_serving.mp hresult).1⟩) hgoes

end

/-- For every run of each of the three functions, in a process with any descriptors. Where
`create_clt_netsock` or `create_srv_netsock` returns, the descriptors are what they were after -1,
and one more, the one returned, otherwise, exactly if `inet_pton` did not fail, and exactly if not
all tries to bind failed. Where `create_netsock_server` returns -1 they are what they were exactly
if not all tries to bind, no `listen` and no `accept` failed. `connect` and `bind` are called at
most as often as the retry loops say, and then the functions have returned. -/
theorem setup_keepsDescriptors (before : List Int) :
    (∀ es c, (createCltNetsock before).run ⟨0, before, .socket⟩ es = some c →
      ((∀ ret, c.pc = .returned ret → KeepsDescriptors before ret c.fds) ↔ ¬ PtonFailed es) ∧
      connects es ≤ maxTryConnTimes ∧
      (connects es = maxTryConnTimes → ∃ ret, c.pc = .returned ret)) ∧
    (∀ es c, (createSrvNetsock before).run (.start before) es = some c →
      ((∀ ret, c.pc = .returned ret → KeepsDescriptors before ret c.fds) ↔
        bindsFailed es < maxTryBindTimes) ∧
      binds es ≤ maxTryBindTimes ∧
      (binds es = maxTryBindTimes → ∃ ret, c.pc = .returned ret)) ∧
    ∀ hf dataEntity socketInfo es c,
      (createServer hf dataEntity socketInfo before).run (.start socketInfo before) es = some c →
      ((∀ fds, c.result = some (-1, fds) → fds = before) ↔
        bindsFailed (srvEvents es) < maxTryBindTimes ∧ ¬ Interrupted es) ∧
      binds (srvEvents es) ≤ maxTryBindTimes := by
  refine ⟨fun es c hrun => ?_, fun es c hrun => ?_, fun hf dataEntity socketInfo es c hrun => ?_⟩
  · have htold := cltNetsock_told hrun
    exact ⟨htold.keeps_iff, htold.connects_le⟩
  · have htold := srvNetsock_told hrun
    exact ⟨htold.keeps_iff, htold.binds_le⟩
  · have htold := netsockServer_told hrun
    exact ⟨htold.keeps_iff, htold.1⟩

/-- A client that cannot connect, a socket that is bound at the second try, and a server without
a `socket_info`. -/
theorem setup_keepsDescriptors_noServer :
    KeepsDescriptors [0, 1, 2] (-1) [0, 1, 2] ∧ KeepsDescriptors [0, 1, 2] 3 [3, 0, 1, 2] ∧
    ∀ fds, (NetsockServer.failed [0, 1, 2]).result = some (-1, fds) → fds = [0, 1, 2] := by
  obtain ⟨hclt, hsrv, hserver⟩ := setup_keepsDescriptors [0, 1, 2]
  have hconnect : (createCltNetsock [0, 1, 2]).run ⟨0, [0, 1, 2], .socket⟩
      (.socket (some 3) :: .inetPton 1 :: List.replicate 15 (.connect false)) =
        some ⟨3, [0, 1, 2], .returned (-1)⟩ := by decide +kernel
  have hbind : (createSrvNetsock [0, 1, 2]).run (.start [0, 1, 2])
      [.socket (some 3), .bind false, .bind true] = some ⟨3, [3, 0, 1, 2], .returned 3⟩ := by
    decide +kernel
  refine ⟨?_, ?_, ?_⟩
  · refine (hclt _ _ hconnect).1.mpr ?_ (-1) rfl
    rintro ⟨ret, hmem, hneg⟩
    simp at hmem
    omega
  · exact (hsrv _ _ hbind).1.mpr (by decide) 3 rfl
  · exact (hserver (fun _ => 0) (fun _ => 0) false [] _ rfl).1.mpr
      ⟨by decide, by simp [Interrupted]⟩

/-- `inet_pton` fails; `bind` fails 15 times; `listen` fails; `accept` fails. Each time -1 is
returned and the socket 3 is left open. -/
theorem failedSetup_leaks :
    (∃ c, (createCltNetsock [0, 1, 2]).run ⟨0, [0, 1, 2], .socket⟩
        [.socket (some 3), .inetPton (-1)] = some c ∧
      c.pc = .returned (-1) ∧ c.fds = [3, 0, 1, 2] ∧ ¬ KeepsDescriptors [0, 1, 2] (-1) c.fds) ∧
    (∃ c, (createSrvNetsock [0, 1, 2]).run (.start [0, 1, 2])
        (.socket (some 3) :: List.replicate 15 (.bind false)) = some c ∧
      c.pc = .returned (-1) ∧ c.fds = [3, 0, 1, 2] ∧ ¬ KeepsDescriptors [0, 1, 2] (-1) c.fds) ∧
    (∃ c, (createServer (fun _ => 0) (fun _ => 0) true [0, 1, 2]).run (.start true [0, 1, 2])
        [.srv (.socket (some 3)), .srv (.bind true), .server .local, .server (.listen false)] =
          some c ∧ c.result = some (-1, [3, 0, 1, 2])) ∧
    ∃ c, (createServer (fun _ => 0) (fun _ => 0) true [0, 1, 2]).run (.start true [0, 1, 2])
        [.srv (.socket (some 3)), .srv (.bind true), .server .local, .server (.listen true),
          .server (.accept none)] = some c ∧ c.result = some (-1, [3, 0, 1, 2]) := by
  have hleak : ¬ KeepsDescriptors [0, 1, 2] (-1) [3, 0, 1, 2] :=
    fun h => absurd (h.1 rfl) (by decide)
  refine ⟨?_, ?_, ?_, ?_⟩
  · have hrun : (createCltNetsock [0, 1, 2]).run ⟨0, [0, 1, 2], .socket⟩
        [.socket (some 3), .inetPton (-1)] = some ⟨3, [3, 0, 1, 2], .returned (-1)⟩ := by
      decide +kernel
    exact ⟨_, hrun, rfl, rfl, hleak⟩
  · have hrun : (createSrvNetsock [0, 1, 2]).run (.start [0, 1, 2])
        (.socket (some 3) :: List.replicate 15 (.bind false)) =
          some ⟨3, [3, 0, 1, 2], .returned (-1)⟩ := by decide +kernel
    exact ⟨_, hrun, rfl, rfl, hleak⟩
  · exact ⟨_, rfl, rfl⟩
  · exact ⟨_, rfl, rfl⟩

end ITrace.LinuxSocket
