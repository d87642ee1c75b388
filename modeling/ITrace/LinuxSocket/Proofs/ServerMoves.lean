import ITrace.LinuxSocket.Proofs.HeadFrames

/-!
# What a step of the head-frame server does

The server never gets past a head frame, because `read_head_frame` does not return the size of
one. This leaves seven kinds of steps, which the proofs about whole runs go through.
-/

namespace ITrace.LinuxSocket

/-- The server has not got past a head frame; the one it may be reading comes from the
connection. -/
def OnlyHeads (s : State) : Prop :=
  match s.pc with
  | .readHead call =>
      (∀ l, call = .running l → l.fd = s.connFd) ∧ ∃ got, DataAt 0 sizeofHeadFrame got call
  | .realloc | .readEntity _ | .protocol => False
  | .listenAgain | .listen | .accept | .drop | .returned _ => True

/-- The steps of a server that has not got past a head frame. -/
inductive ServerMove (s : State) : Event → State → Prop
  | listenAgain (hpc : s.pc = .listenAgain) :
      ServerMove s .local
        { s with connFd := if s.connFd > 0 then -1 else s.connFd, pc := .listen }
  | listen (hpc : s.pc = .listen) (ok : Bool) :
      ServerMove s (.listen ok) { s with pc := if ok then .accept else .returned (-1) }
  | acceptFails (hpc : s.pc = .accept) :
      ServerMove s (.accept none) { s with connFd := -1, pc := .returned (-1) }
  | accept (hpc : s.pc = .accept) {fd : Int} {stream : List UInt8} (hfd : 0 ≤ fd)
      (hfresh : fd ∉ s.fds) :
      ServerMove s (.accept (some (fd, stream)))
        { s with connFd := fd, fds := fd :: s.fds, incoming := stream, calls := [],
                 failed := false, ended := false, pc := .readHead (readHeadFrame fd 0) }
  | read {l : DataLoop} (hpc : s.pc = .readHead (.running l)) {answer : SysResult} {s' : State}
      (hpc' : s'.pc = .readHead (l.step answer)) (hconn : s'.connFd = s.connFd)
      (hlisten : s'.listenFd = s.listenFd) (hfds : s'.fds = s.fds) :
      ServerMove s (.read answer) s'
  | headDone {ret : Int} (hpc : s.pc = .readHead (.returned ret)) :
      ServerMove s .local { s with pc := .drop }
  | drop (hpc : s.pc = .drop) :
      ServerMove s .local
        { s with fds := if s.connFd ≠ 0 then s.fds.erase s.connFd else s.fds, pc := .listenAgain }

theorem DataLoop.step_fd {l l' : DataLoop} {answer : SysResult}
    (h : l.step answer = .running l') : l'.fd = l.fd := by
  cases answer with
  | err e => cases h
  | ok k =>
    simp only [DataLoop.step, DataLoop.loop, DataLoop.done] at h
    split at h
    · split at h
      · cases h
        rfl
      · cases h
    · split at h
      · split at h
        · cases h
        · split at h
          · cases h
            rfl
          · cases h
      · cases h

theorem readHeadFrame_fd {fd hf : Int} {l : DataLoop} (h : readHeadFrame fd hf = .running l) :
    l.fd = fd := by
  unfold readHeadFrame readData DataLoop.loop at h
  split at h
  · cases h
    rfl
  · cases h

/-- A `read` moves on in the head frame and leaves the descriptors as they are. -/
theorem socketRead_keeps {s u : State} {l : DataLoop} {answer : SysResult} {bytes : List UInt8}
    {got : Nat} (hl : DataAt 0 sizeofHeadFrame got (.running l))
    (hu : s.read l answer = some (bytes, u)) :
    (u.connFd = s.connFd ∧ u.listenFd = s.listenFd ∧ u.fds = s.fds) ∧
      ∃ got', DataAt 0 sizeofHeadFrame got' (l.step answer) := by
  cases answer with
  | err e =>
    cases hu
    exact ⟨⟨rfl, rfl, rfl⟩, got, hl.step_err e⟩
  | ok k =>
    obtain ⟨⟨hk, -⟩, hu⟩ := Option.ite_none_right_eq_some.mp hu
    cases hu
    exact ⟨⟨rfl, rfl, rfl⟩, got + k, hl.step_ok (by decide) hk⟩

/-- Such a server makes one of these steps and stays such a server. -/
theorem serverMove_of_step {s s' : State} {e : Event} (h : OnlyHeads s)
    (he : createNetsockServer s e = some s') : ServerMove s e s' ∧ OnlyHeads s' := by
  unfold OnlyHeads at h
  unfold createNetsockServer at he
  split at he
  case h_1 heq =>
    cases he
    exact ⟨.listenAgain heq, trivial⟩
  case h_2 ok heq =>
    cases he
    refine ⟨.listen heq ok, ?_⟩
    cases ok <;> trivial
  case h_3 heq =>
    cases he
    exact ⟨.acceptFails heq, trivial⟩
  case h_4 fd stream heq =>
    obtain ⟨⟨hfd, hfresh⟩, he⟩ := Option.ite_none_right_eq_some.mp he
    cases he
    exact ⟨.accept heq hfd hfresh, fun l hl => readHeadFrame_fd hl, 0,
      readData_at fd 0 (by decide)⟩
  case h_5 l answer heq =>
    rw [heq] at h
    obtain ⟨hfd, got, hl⟩ := h
    obtain ⟨⟨bytes, u⟩, hu, rfl⟩ := Option.map_eq_some_iff.mp he
    obtain ⟨⟨hconn, hlisten, hfds⟩, hgot⟩ := socketRead_keeps hl hu
    refine ⟨.read heq rfl hconn hlisten hfds, fun l' hl' => ?_, hgot⟩
    rw [DataLoop.step_fd hl', hfd l rfl]
    exact hconn.symm
  case h_6 ret heq =>
    rw [heq] at h
    obtain ⟨-, got, hl⟩ := h
    cases he
    rw [if_pos (readHeadFrame_ret hl)]
    exact ⟨.headDone heq, trivial⟩
  case h_11 heq =>
    cases he
    exact ⟨.drop heq, trivial⟩
  case h_12 => cases he
  all_goals
    rename_i heq
    rw [heq] at h
    exact h.elim

end ITrace.LinuxSocket
