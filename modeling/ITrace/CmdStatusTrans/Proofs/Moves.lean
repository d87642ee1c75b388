import ITrace.CmdStatusTrans.Threads

/-!
# What a step of the command thread or of the status thread can do

The step functions of `Threads` turned over: for each place where a thread can stand, what its next
step needs and what it leaves. The proofs about runs go through these cases and take the step
functions apart no more.
-/

namespace ITrace.CmdStatusTrans

open ITrace

variable {s s' : State}

/-- What `read` on the socket leaves: the bytes it stored, or nothing new. -/
theorem socketRead_cases {call : Readn} {answer : SysResult}
    (h : socketRead s call answer = some s') :
    (∃ k, answer = .ok k ∧ 0 ≤ call.fd ∧ k ≤ call.nleft ∧ k ≤ s.incoming.length ∧
      s' = { s with incoming := s.incoming.drop k,
                    cmdCache := s.cmdCache.store call.ptr (s.incoming.take k) }) ∨
    (∃ e, answer = .err e ∧ (0 ≤ call.fd ∨ e = .EBADF) ∧ s' = s) := by
  cases answer with
  | ok k =>
    obtain ⟨⟨hfd, hleft, hin⟩, h⟩ := Option.ite_none_right_eq_some.mp h
    cases h
    exact .inl ⟨k, rfl, hfd, hleft, hin, rfl⟩
  | err e =>
    obtain ⟨he, h⟩ := Option.ite_none_right_eq_some.mp h
    cases h
    exact .inr ⟨e, rfl, he, rfl⟩

/-! ### The command thread -/

/-- The steps of `read_net_cmd_thread`. No frame is taken for the reset frame, so each is written
to the device. -/
inductive CmdMove (s : State) : CmdEvent → State → Prop
  | whileCond (hpc : s.cmdPc = .whileCond) :
      CmdMove s .local
        { s with cmdPc := if s.sysStatus ≠ .stop then .callHeader else .exited .stop }
  | callHeader (hpc : s.cmdPc = .callHeader) :
      CmdMove s .local (headerCall s (readn s.socketFd 0 1))
  | readHeader {call : Readn} {answer : SysResult} {u : State} (hpc : s.cmdPc = .readHeader call)
      (hu : socketRead s call answer = some u) :
      CmdMove s (.socket answer) (headerCall u (call.step answer))
  | callBody (hpc : s.cmdPc = .callBody) :
      CmdMove s .local (bodyCall s (readn s.socketFd 1 (bodyLen s)))
  | readBody {call : Readn} {answer : SysResult} {u : State} (hpc : s.cmdPc = .readBody call)
      (hu : socketRead s call answer = some u) :
      CmdMove s (.socket answer) (bodyCall u (call.step answer))
  | dispatch (hpc : s.cmdPc = .dispatch) :
      CmdMove s .local (devCall s (writenToCmdStatusDev s.devFd 0 (bodyLen s + 1)))
  | resetSet (hpc : s.cmdPc = .resetSet) :
      CmdMove s .ioctl
        { s with devLog := s.devLog ++ [.setCtrlRegister 1], cmdPc := .resetClear }
  | resetClear (hpc : s.cmdPc = .resetClear) :
      CmdMove s .ioctl
        { s with devLog := s.devLog ++ [.setCtrlRegister 0], cmdPc := .whileCond }
  | wrote {l : WritenToDev} {call : Writen} {k : Nat} (hpc : s.cmdPc = .writeDev l)
      (hcall : l.call = .running call) (hk : k ≤ call.nleft) :
      CmdMove s (.device (.ok k))
        { s with devLog := s.devLog ++ devBytes (s.cmdCache.load call.ptr k),
                 cmdPc := .writeDev { l with call := call.step (.ok k) } }
  | writeErr {l : WritenToDev} {call : Writen} (hpc : s.cmdPc = .writeDev l)
      (hcall : l.call = .running call) (errno : Errno) :
      CmdMove s (.device (.err errno))
        { s with cmdPc := .writeDev { l with call := call.step (.err errno) } }
  | pieceDone {l : WritenToDev} {ret : Int} (hpc : s.cmdPc = .writeDev l)
      (hcall : l.call = .returned ret) : CmdMove s .local (devCall s (l.returned ret))

theorem readNetCmdThread_move {e : CmdEvent} (he : readNetCmdThread s e = some s') :
    CmdMove s e s' := by
  unfold readNetCmdThread at he
  split at he
  case h_1 hpc =>
    cases he
    exact .whileCond hpc
  case h_2 hpc =>
    cases he
    exact .callHeader hpc
  case h_3 hpc =>
    obtain ⟨u, hu, rfl⟩ := Option.map_eq_some_iff.mp he
    exact .readHeader hpc hu
  case h_4 hpc =>
    cases he
    exact .callBody hpc
  case h_5 hpc =>
    obtain ⟨u, hu, rfl⟩ := Option.map_eq_some_iff.mp he
    exact .readBody hpc hu
  case h_6 hpc =>
    cases he
    rw [isResetFrame_eq_false, if_neg Bool.false_ne_true]
    exact .dispatch hpc
  case h_7 hpc =>
    cases he
    exact .resetSet hpc
  case h_8 hpc =>
    cases he
    exact .resetClear hpc
  case h_9 hpc =>
    split at he
    · rename_i hcall
      obtain ⟨hk, he⟩ := Option.ite_none_right_eq_some.mp he
      cases he
      exact .wrote hpc hcall hk
    · rename_i hcall
      cases he
      exact .writeErr hpc hcall _
    · cases he
  case h_10 hpc =>
    split at he
    · cases he
    · rename_i hcall
      cases he
      exact .pieceDone hpc hcall
  case h_11 => cases he

/-! ### The status thread -/

/-- The steps of `send_status_data_thread`. -/
inductive StatusMove (s : State) : StatusEvent → State → Prop
  | malloc (hpc : s.statusPc = .malloc) (found : Bool) :
      StatusMove s (.malloc found)
        { s with readRet := 0, statusPc := if found then .whileCond else .exited .mallocFailed }
  | whileCond (hpc : s.statusPc = .whileCond) :
      StatusMove s .local
        { s with statusPc := if s.sysStatus ≠ .stop then .readDevice else .exited .stop }
  | readDevice (hpc : s.statusPc = .readDevice) {bytes : List UInt8}
      (hlen : bytes.length ≤ maxReadLenOnce) :
      StatusMove s (.readDevice bytes)
        { s with statusBuf := s.statusBuf.store 0 bytes, readRet := bytes.length,
                 statusPc := if bytes.length = 0 then .whileCond else .callWrite }
  | readFailed (hpc : s.statusPc = .readDevice) (errno afterPrint : Errno) :
      StatusMove s (.readFailed errno afterPrint)
        { s with readRet := -1,
                 statusPc := if afterPrint.transient then .whileCond else .exited .deviceFailed }
  | callWrite (hpc : s.statusPc = .callWrite) :
      StatusMove s .local (sendCall s (writen s.socketFd 0 s.readRet.toNat))
  | wrote {call : Writen} {k : Nat} (hpc : s.statusPc = .writeSocket call) (hk : k ≤ call.nleft) :
      StatusMove s (.socket (.ok k))
        (sendCall { s with socketOut := s.socketOut ++ s.statusBuf.load call.ptr k }
          (call.step (.ok k)))
  | writeErr {call : Writen} (hpc : s.statusPc = .writeSocket call) (errno : Errno) :
      StatusMove s (.socket (.err errno)) (sendCall s (call.step (.err errno)))
  | testSent {ret : Int} (hpc : s.statusPc = .testSent ret) :
      StatusMove s .local
        { s with socketFd := if ret ≠ s.readRet then -1 else s.socketFd, statusPc := .whileCond }

theorem sendStatusDataThread_move {e : StatusEvent} (he : sendStatusDataThread s e = some s') :
    StatusMove s e s' := by
  unfold sendStatusDataThread at he
  split at he
  case h_1 hpc =>
    cases he
    exact .malloc hpc _
  case h_2 hpc =>
    cases he
    exact .whileCond hpc
  case h_3 hpc =>
    obtain ⟨hlen, he⟩ := Option.ite_none_right_eq_some.mp he
    cases he
    exact .readDevice hpc hlen
  case h_4 hpc =>
    cases he
    exact .readFailed hpc _ _
  case h_5 hpc =>
    cases he
    exact .callWrite hpc
  case h_6 hpc =>
    split at he
    · obtain ⟨hk, he⟩ := Option.ite_none_right_eq_some.mp he
      cases he
      exact .wrote hpc hk
    · cases he
      exact .writeErr hpc _
  case h_7 hpc =>
    cases he
    exact .testSent hpc
  case h_8 => cases he

end ITrace.CmdStatusTrans
