import ITrace.CmdStatusTrans.Proofs.SharedParams

/-!
# Forwarding and draining the status stream

What `send_status_data_thread` does with the chunks it reads. As long as the socket does not fail
the chunks arrive there one after the other, and after the first failure the thread reads on
without a `write`.
-/

namespace ITrace.CmdStatusTrans

/-- The chunk an event reads from the device, if there is something in it. -/
def Event.chunk : Event → Option (List UInt8)
  | .status (.readDevice (b :: bs)) => some (b :: bs)
  | _ => none

/-- The non-empty chunks the status thread read, in order. -/
def chunksRead (es : List Event) : List (List UInt8) := es.filterMap Event.chunk

/-- A `write` to the socket that is not made again: it failed, or it accepted nothing. -/
def Event.socketFails : Event → Bool
  | .status (.socket (.ok k)) => k = 0
  | .status (.socket (.err errno)) => !errno.transient
  | _ => false

/-- The part of the current chunk that the socket has still to accept. -/
def unsent (s : State) : List UInt8 :=
  match s.statusPc with
  | .callWrite => s.statusBuf.load 0 s.readRet.toNat
  | .writeSocket call => s.statusBuf.load call.ptr call.nleft
  | _ => []

/-- The thread has the socket and the socket has the chunks, up to a part of the last one. -/
structure Forwarding (chunks : List (List UInt8)) (s : State) : Prop where
  socketFd : 0 ≤ s.socketFd
  out : s.socketOut ++ unsent s = chunks.flatten
  part : unsent s = [] ∨ ∃ sent chunk, chunks = sent ++ [chunk] ∧ unsent s <:+ chunk
  pc : match s.statusPc with
    | .callWrite => 0 < s.readRet
    | .writeSocket call => call.n = s.readRet ∧ 0 < s.readRet ∧ 0 < call.nleft
    | .testSent ret => ret = s.readRet
    | _ => True

/-- In the loop or behind it, and not in a `write`. -/
def SendStatusPc.drains : SendStatusPc → Bool
  | .malloc | .writeSocket _ => false
  | _ => true

/-- The socket failed: the thread is about to put -1 into `socket_fd`, or has done so. -/
def GivenUp (s : State) : Prop :=
  (∃ ret, s.statusPc = .testSent ret ∧ ret ≠ s.readRet) ∨
  (s.socketFd = -1 ∧ s.statusPc.drains = true)

/-- The error with which an event says the device's `read` failed. -/
def Event.deviceError : Event → Option Errno
  | .status (.readFailed errno _) => some errno
  | _ => none

/-- The errors of the device, in order. -/
def deviceErrors (es : List Event) : List Errno := es.filterMap Event.deviceError

/-- If the device failed with `EINTR` or `EAGAIN`, the `printc` that follows leaves one of the two
in `errno`. -/
def Event.KeepsErrno : Event → Prop
  | .status (.readFailed errno afterPrint) =>
      errno.transient = true → afterPrint.transient = true
  | _ => True

/-- Why the thread is not in its loop: it never entered it, or it read `Stop`, or the device failed
with another error than `EINTR` and `EAGAIN`. -/
def LeftFor (es : List Event) (s : State) : Prop :=
  match s.statusPc with
  | .exited .mallocFailed => .status (.malloc false) ∈ es
  | .exited .stop => s.sysStatus = .stop
  | .exited .deviceFailed => ∃ errno ∈ (deviceErrors es).getLast?, errno.transient = false
  | _ => True

variable {c : Child} {s s' t : State} {es : List Event}

theorem chunksRead_append (es fs : List Event) :
    chunksRead (es ++ fs) = chunksRead es ++ chunksRead fs := List.filterMap_append

theorem forwarding_of_started (h : Started c s) : Forwarding [] s := by
  obtain ⟨hfd, -, -, hout, -, -, -, hpc⟩ := h
  have hnil : unsent s = [] := by simp [unsent, hpc]
  refine ⟨?_, ?_, .inl hnil, by simp [hpc]⟩
  · rw [hfd]
    exact c.connFd_nonneg
  · rw [hout, hnil]
    rfl

/-! ### The locals of the status thread -/

/-- What the status thread has in hand: its buffer and `read_ret`. -/
def inHand (s : State) : Mem UInt8 × Int := (s.statusBuf, s.readRet)

theorem headerCall_inHand (s : State) (call : Call Readn) :
    inHand (headerCall s call) = inHand s := by
  cases call <;> rfl

theorem bodyCall_inHand (s : State) (call : Call Readn) :
    inHand (bodyCall s call) = inHand s := by
  cases call <;> rfl

theorem devCall_inHand (s : State) (call : Call WritenToDev) :
    inHand (devCall s call) = inHand s := by
  cases call <;> rfl

theorem socketRead_inHand {call : Readn} {answer : SysResult}
    (h : socketRead s call answer = some s') : inHand s' = inHand s := by
  rcases socketRead_cases h with ⟨k, -, -, -, -, rfl⟩ | ⟨e, -, -, rfl⟩ <;> rfl

theorem readNetCmdThread_inHand {e : CmdEvent} (he : readNetCmdThread s e = some s') :
    inHand s' = inHand s := by
  cases readNetCmdThread_move he with
  | callHeader => exact headerCall_inHand _ _
  | readHeader _ hu => exact (headerCall_inHand _ _).trans (socketRead_inHand hu)
  | callBody => exact bodyCall_inHand _ _
  | readBody _ hu => exact (bodyCall_inHand _ _).trans (socketRead_inHand hu)
  | dispatch | pieceDone => exact devCall_inHand _ _
  | whileCond | resetSet | resetClear | wrote | writeErr => rfl

/-! ### While the socket works -/

/-- What a step that leaves the thread alone leaves in place. -/
theorem Forwarding.of_kept {chunks : List (List UInt8)} (h : Forwarding chunks s)
    (hfd : s'.socketFd = s.socketFd) (hout : s'.socketOut = s.socketOut)
    (hpc : s'.statusPc = s.statusPc) (hhand : inHand s' = inHand s) : Forwarding chunks s' := by
  have hbuf : s'.statusBuf = s.statusBuf := congrArg Prod.fst hhand
  have hret : s'.readRet = s.readRet := congrArg Prod.snd hhand
  have hunsent : unsent s' = unsent s := by rw [unsent, hpc, hbuf, hret, unsent]
  refine ⟨hfd ▸ h.socketFd, by rw [hout, hunsent, h.out], hunsent ▸ h.part, ?_⟩
  rw [hpc, hret]
  exact h.pc

/-- A chunk came from the device. -/
theorem Forwarding.read_chunk {chunks : List (List UInt8)} {bytes : List UInt8}
    (h : Forwarding chunks s) (hpc : s.statusPc = .readDevice) :
    Forwarding (chunks ++ (if bytes = [] then [] else [bytes]))
      { s with statusBuf := s.statusBuf.store 0 bytes, readRet := bytes.length,
               statusPc := if bytes.length = 0 then .whileCond else .callWrite } := by
  have hout := h.out
  simp only [unsent, hpc, List.append_nil] at hout
  by_cases hnil : bytes = []
  · subst hnil
    exact ⟨h.socketFd, by simp [unsent, hout], .inl rfl, trivial⟩
  · have hlen : ¬ bytes.length = 0 := by rwa [List.length_eq_zero_iff]
    have hload : (s.statusBuf.store 0 bytes).load 0 bytes.length = bytes :=
      Mem.load_store_same _ _ _
    simp only [if_neg hnil, if_neg hlen]
    refine ⟨h.socketFd, ?_, .inr ⟨chunks, bytes, rfl, ?_⟩, ?_⟩
    · simp [unsent, hload, hout]
    · simp [unsent, hload]
    · simp only
      omega

/-- The `write` of the rest of the chunk starts. -/
theorem Forwarding.call_write {chunks : List (List UInt8)} (h : Forwarding chunks s)
    (hpc : s.statusPc = .callWrite) :
    Forwarding chunks (sendCall s (writen s.socketFd 0 s.readRet.toNat)) := by
  obtain ⟨hfd, hout, hpart, hat⟩ := h
  simp only [unsent, hpc] at hout hpart hat
  have hcall : writen s.socketFd 0 s.readRet.toNat =
      .running ⟨s.socketFd, 0, s.readRet.toNat, s.readRet.toNat⟩ := by
    rw [writen, if_neg (by omega), Writen.loop, if_pos (by simp only; omega)]
  rw [hcall]
  exact ⟨hfd, hout, hpart, by simp only [sendCall]; omega⟩

/-- The socket accepted some of the chunk. -/
theorem Forwarding.accepted {chunks : List (List UInt8)} {call : Writen} {k : Nat}
    (h : Forwarding chunks s) (hpc : s.statusPc = .writeSocket call) (hk : k + 1 ≤ call.nleft) :
    Forwarding chunks
      (sendCall { s with socketOut := s.socketOut ++ s.statusBuf.load call.ptr (k + 1) }
        (call.step (.ok (k + 1)))) := by
  obtain ⟨hfd, hout, hpart, hat⟩ := h
  simp only [unsent, hpc] at hout hpart hat
  obtain ⟨r, hr⟩ := Nat.exists_eq_add_of_le hk
  rw [hr, Mem.load_add] at hout hpart
  simp only [Writen.step, Writen.loop]
  by_cases hmore : 0 < call.nleft - (k + 1)
  · rw [if_pos hmore]
    have hr' : call.nleft - (k + 1) = r := by omega
    refine ⟨hfd, ?_, ?_, ⟨hat.1, hat.2.1, hmore⟩⟩
    · simp only [unsent, sendCall, hr']
      rw [List.append_assoc]
      exact hout
    · refine .inr ?_
      simp only [unsent, sendCall, hr']
      rcases hpart with hnil | ⟨sent, chunk, hchunks, hsuffix⟩
      · simp [Mem.load] at hnil
      · exact ⟨sent, chunk, hchunks, (List.suffix_append _ _).trans hsuffix⟩
  · rw [if_neg hmore]
    obtain rfl : r = 0 := by omega
    refine ⟨hfd, ?_, .inl rfl, hat.1⟩
    simpa [unsent, sendCall, Mem.load] using hout

/-- A step at which nothing is unsent, before or after it. -/
theorem Forwarding.idle {chunks : List (List UInt8)} (h : Forwarding chunks s)
    (hunsent : unsent s = []) (hfd : s'.socketFd = s.socketFd) (hout : s'.socketOut = s.socketOut)
    (hpc : s'.statusPc = .whileCond ∨ s'.statusPc = .readDevice ∨ ∃ why, s'.statusPc = .exited why) :
    Forwarding chunks s' := by
  have hunsent' : unsent s' = [] := by
    rcases hpc with hpc | hpc | ⟨why, hpc⟩ <;> simp [unsent, hpc]
  refine ⟨hfd ▸ h.socketFd, ?_, .inl hunsent', ?_⟩
  · rw [hout, hunsent', ← hunsent, h.out]
  · rcases hpc with hpc | hpc | ⟨why, hpc⟩ <;> simp [hpc]

/-- As long as the socket does not fail the thread forwards what it reads. -/
theorem sendStatusDataThread_forwarding {chunks : List (List UInt8)} {e : StatusEvent}
    (h : Forwarding chunks s) (hfine : (Event.status e).socketFails = false)
    (he : sendStatusDataThread s e = some s') :
    Forwarding (chunks ++ chunksRead [.status e]) s' := by
  have hat := h.pc
  have hskip : chunksRead [.status e] = [] → Forwarding chunks s' →
      Forwarding (chunks ++ chunksRead [.status e]) s' := by
    intro hnil hchunks
    rwa [hnil, List.append_nil]
  cases sendStatusDataThread_move he with
  | malloc hpc found =>
    refine hskip rfl (h.idle (by simp [unsent, hpc]) rfl rfl ?_)
    cases found <;> simp
  | whileCond hpc =>
    refine hskip rfl (h.idle (by simp [unsent, hpc]) rfl rfl ?_)
    by_cases hstop : s.sysStatus = .stop <;> simp [hstop]
  | @readDevice hpc bytes hlen =>
    have hchunk : chunksRead [.status (.readDevice bytes)] =
        if bytes = [] then [] else [bytes] := by cases bytes <;> rfl
    rw [hchunk]
    exact h.read_chunk hpc
  | readFailed hpc errno afterPrint =>
    refine hskip rfl (h.idle (by simp [unsent, hpc]) rfl rfl ?_)
    cases afterPrint.transient <;> simp
  | callWrite hpc => exact hskip rfl (h.call_write hpc)
  | @wrote call k hpc hk =>
    cases k with
    | zero => cases hfine
    | succ k => exact hskip rfl (h.accepted hpc hk)
  | @writeErr call hpc errno =>
    have htransient : errno.transient = true := by simpa [Event.socketFails] using hfine
    simp only [hpc] at hat
    refine hskip rfl ?_
    rw [Writen.step, if_pos htransient, Writen.loop, if_pos hat.2.2]
    exact h.of_kept rfl rfl hpc.symm rfl
  | testSent hpc =>
    simp only [hpc] at hat
    exact hskip rfl (h.idle (by simp [unsent, hpc]) (if_neg (not_not_intro hat)) rfl (.inl rfl))

theorem step_forwarding {chunks : List (List UInt8)} {e : Event} (h : Forwarding chunks s)
    (hfine : e.socketFails = false) (he : (threads c).step s e = some s') :
    Forwarding (chunks ++ chunksRead [e]) s' := by
  cases e with
  | stop =>
    cases he
    rw [show chunksRead [.stop] = [] from rfl, List.append_nil]
    exact h.of_kept rfl rfl rfl rfl
  | cmd e =>
    have hk := readNetCmdThread_kept he
    rw [show chunksRead [.cmd e] = [] from rfl, List.append_nil]
    exact h.of_kept hk.socketFd hk.socketOut hk.statusPc (readNetCmdThread_inHand he)
  | status e => exact sendStatusDataThread_forwarding h hfine he

/-- In a run without a failure of the socket everything that was read is sent or about to be. -/
theorem run_forwarding (hs : Started c s) (hfine : es.any Event.socketFails = false)
    (hrun : (threads c).run s es = some t) : Forwarding (chunksRead es) t := by
  have hstep : ∀ (es : List Event) (u : State) (e : Event) (u' : State),
      (es.any Event.socketFails = false → Forwarding (chunksRead es) u) →
      (threads c).step u e = some u' →
      (es ++ [e]).any Event.socketFails = false → Forwarding (chunksRead (es ++ [e])) u' := by
    intro es u e u' hu he hfine
    rw [List.any_append, Bool.or_eq_false_iff] at hfine
    rw [chunksRead_append]
    exact step_forwarding (hu hfine.1) (by simpa using hfine.2) he
  exact Machine.run_history (I := fun es u => es.any Event.socketFails = false →
    Forwarding (chunksRead es) u) hstep (fun _ => forwarding_of_started hs) hrun hfine

/-! ### After the socket failed -/

/-- The failure of the socket. -/
theorem sendStatusDataThread_socketFails {chunks : List (List UInt8)} {answer : SysResult}
    (h : Forwarding chunks s) (hfail : (Event.status (.socket answer)).socketFails = true)
    (he : sendStatusDataThread s (.socket answer) = some s') :
    GivenUp s' ∧ s'.socketOut = s.socketOut ∧ unsent s ≠ [] := by
  have hat := h.pc
  have hunsent : ∀ call, s.statusPc = .writeSocket call → 0 < call.nleft → unsent s ≠ [] := by
    intro call hpc hpos hnil
    rw [unsent, hpc] at hnil
    have hlen := congrArg List.length hnil
    rw [Mem.length_load] at hlen
    exact absurd hlen (Nat.ne_of_gt hpos)
  have hret : 0 < s.readRet → (-1 : Int) ≠ s.readRet := by omega
  cases sendStatusDataThread_move he with
  | @wrote call k hpc hk =>
    simp only [hpc] at hat
    obtain rfl : k = 0 := by simpa [Event.socketFails] using hfail
    exact ⟨.inl ⟨-1, rfl, hret hat.2.1⟩, List.append_nil _, hunsent call hpc hat.2.2⟩
  | @writeErr call hpc errno =>
    simp only [hpc] at hat
    have hlasting : errno.transient = false := by simpa [Event.socketFails] using hfail
    rw [Writen.step, hlasting]
    exact ⟨.inl ⟨-1, rfl, hret hat.2.1⟩, rfl, hunsent call hpc hat.2.2⟩

theorem step_socketFails {chunks : List (List UInt8)} {e : Event} (h : Forwarding chunks s)
    (hfail : e.socketFails = true) (he : (threads c).step s e = some s') :
    GivenUp s' ∧ s'.socketOut = s.socketOut ∧ unsent s ≠ [] := by
  cases e with
  | status e =>
    cases e with
    | socket answer => exact sendStatusDataThread_socketFails h hfail he
    | _ => cases hfail
  | _ => cases hfail

/-- Once the thread has given the connection up it makes no `write`. -/
theorem sendStatusDataThread_givenUp {e : StatusEvent} (h : GivenUp s)
    (he : sendStatusDataThread s e = some s') :
    GivenUp s' ∧ s'.socketOut = s.socketOut ∧ ∀ answer, e ≠ .socket answer := by
  have hfd : (∀ ret, s.statusPc ≠ .testSent ret) → s.socketFd = -1 := by
    intro hne
    rcases h with ⟨ret, hret, -⟩ | ⟨hfd, -⟩
    · exact absurd hret (hne ret)
    · exact hfd
  have hdrains : s.statusPc.drains = true := by
    rcases h with ⟨ret, hret, -⟩ | ⟨-, hdrains⟩
    · rw [hret]
      rfl
    · exact hdrains
  cases sendStatusDataThread_move he with
  | malloc hpc | wrote hpc | writeErr hpc =>
    rw [hpc] at hdrains
    cases hdrains
  -- writen returns 0 for the descriptor -1
  | callWrite hpc =>
    have hneg := hfd (by simp [hpc])
    rw [writen, if_pos (by omega)]
    exact ⟨.inr ⟨hneg, rfl⟩, rfl, by simp⟩
  | testSent hpc =>
    refine ⟨.inr ⟨?_, rfl⟩, rfl, by simp⟩
    rcases h with ⟨ret', hret, hne⟩ | ⟨hneg, -⟩
    · rw [hpc] at hret
      cases hret
      exact if_pos hne
    · simp [hneg]
  | whileCond hpc | readDevice hpc | readFailed hpc =>
    refine ⟨.inr ⟨hfd (by simp [hpc]), ?_⟩, rfl, by simp⟩
    simp only
    split <;> rfl

theorem step_givenUp {e : Event} (h : GivenUp s) (he : (threads c).step s e = some s') :
    GivenUp s' ∧ s'.socketOut = s.socketOut ∧ ∀ answer, e ≠ .status (.socket answer) := by
  cases e with
  | stop =>
    cases he
    exact ⟨h, rfl, by simp⟩
  | cmd e =>
    have hk := readNetCmdThread_kept he
    have hret : s'.readRet = s.readRet := congrArg Prod.snd (readNetCmdThread_inHand he)
    refine ⟨?_, hk.socketOut, by simp⟩
    rw [GivenUp, hk.statusPc, hk.socketFd, hret]
    exact h
  | status e =>
    obtain ⟨hgiven, hout, hne⟩ := sendStatusDataThread_givenUp h he
    exact ⟨hgiven, hout, fun answer heq => hne answer (Event.status.inj heq)⟩

/-- From then on no byte goes to the socket, nor is a `write` tried. -/
theorem run_givenUp (h : GivenUp s) (hrun : (threads c).run s es = some t) :
    GivenUp t ∧ t.socketOut = s.socketOut ∧ ∀ answer, .status (.socket answer) ∉ es := by
  have hstep : ∀ (es : List Event) (u : State) (e : Event) (u' : State),
      (GivenUp u ∧ u.socketOut = s.socketOut ∧ ∀ answer, .status (.socket answer) ∉ es) →
      (threads c).step u e = some u' →
      (GivenUp u' ∧ u'.socketOut = s.socketOut ∧ ∀ answer, .status (.socket answer) ∉ es ++ [e]) := by
    intro es u e u' ⟨hgiven, hout, hes⟩ he
    obtain ⟨hgiven', hout', hne⟩ := step_givenUp hgiven he
    refine ⟨hgiven', hout'.trans hout, fun answer hmem => ?_⟩
    rcases List.mem_append.mp hmem with hmem | hmem
    · exact hes answer hmem
    · exact hne answer (List.mem_singleton.mp hmem).symm
  exact Machine.run_history (I := fun es u => GivenUp u ∧ u.socketOut = s.socketOut ∧
    ∀ answer, .status (.socket answer) ∉ es) hstep ⟨h, rfl, by simp⟩ hrun

/-- As long as the system runs, the thread comes to its next read without the socket. -/
theorem GivenUp.reads (h : GivenUp s) (hin : ∀ why, s.statusPc ≠ .exited why)
    (hstop : s.sysStatus ≠ .stop) :
    ∃ n u, (threads c).run s (List.replicate n (.status .local)) = some u ∧
      u.statusPc = .readDevice := by
  have hloop : ∀ u : State, u.statusPc = .whileCond → u.sysStatus ≠ .stop →
      (threads c).step u (.status .local) = some { u with statusPc := .readDevice } := by
    intro u hpc hu
    simp [threads, sendStatusDataThread, hpc, hu]
  have htest : ∀ (u : State) ret, u.statusPc = .testSent ret → ∃ v,
      (threads c).step u (.status .local) = some v ∧ v.statusPc = .whileCond ∧
      v.sysStatus = u.sysStatus := by
    intro u ret hpc
    exact ⟨{ u with socketFd := if ret ≠ u.readRet then -1 else u.socketFd,
                    statusPc := .whileCond },
      by simp only [threads, sendStatusDataThread, hpc], rfl, rfl⟩
  rcases h with ⟨ret, hpc, -⟩ | ⟨hfd, hdrains⟩
  · obtain ⟨v, hv, hpcv, hstopv⟩ := htest s ret hpc
    refine ⟨2, _, Machine.run_cons_iff.mpr ⟨v, hv, Machine.run_cons_iff.mpr
      ⟨_, hloop v hpcv (hstopv ▸ hstop), rfl⟩⟩, rfl⟩
  · cases hpc : s.statusPc with
    | malloc => simp [hpc, SendStatusPc.drains] at hdrains
    | writeSocket call => simp [hpc, SendStatusPc.drains] at hdrains
    | exited why => exact absurd hpc (hin why)
    | readDevice => exact ⟨0, s, rfl, hpc⟩
    | whileCond => exact ⟨1, _, Machine.run_cons_iff.mpr ⟨_, hloop s hpc hstop, rfl⟩, rfl⟩
    | testSent ret =>
      obtain ⟨v, hv, hpcv, hstopv⟩ := htest s ret hpc
      exact ⟨2, _, Machine.run_cons_iff.mpr ⟨v, hv, Machine.run_cons_iff.mpr
        ⟨_, hloop v hpcv (hstopv ▸ hstop), rfl⟩⟩, rfl⟩
    | callWrite =>
      have hcall : (threads c).step s (.status .local) =
          some { s with statusPc := .testSent 0 } := by
        simp only [threads, sendStatusDataThread, hpc]
        rw [writen, if_pos (by omega)]
        rfl
      obtain ⟨v, hv, hpcv, hstopv⟩ := htest { s with statusPc := .testSent 0 } 0 rfl
      exact ⟨3, _, Machine.run_cons_iff.mpr ⟨_, hcall, Machine.run_cons_iff.mpr
        ⟨v, hv, Machine.run_cons_iff.mpr ⟨_, hloop v hpcv (hstopv ▸ hstop), rfl⟩⟩⟩, rfl⟩

/-! ### Why the thread leaves its loop -/

theorem deviceErrors_append (es fs : List Event) :
    deviceErrors (es ++ fs) = deviceErrors es ++ deviceErrors fs := List.filterMap_append

theorem deviceErrors_snoc_of_none {e : Event} (he : e.deviceError = none) :
    deviceErrors (es ++ [e]) = deviceErrors es := by
  simp [deviceErrors, he]

/-- A step that leaves the thread alone, and brings no error of the device. -/
theorem LeftFor.snoc (h : LeftFor es s) {e : Event} (he : e.deviceError = none)
    (hpc : s'.statusPc = s.statusPc) (hstop : s.sysStatus = .stop → s'.sysStatus = .stop) :
    LeftFor (es ++ [e]) s' := by
  unfold LeftFor at h ⊢
  rw [hpc, deviceErrors_snoc_of_none he]
  split
  · exact List.mem_append_left _ (by simpa [*] using h)
  · exact hstop (by simpa [*] using h)
  · simpa [*] using h
  · trivial

theorem leftFor_deviceFailed_iff (hpc : s.statusPc = .exited .deviceFailed) :
    LeftFor es s ↔ ∃ errno ∈ (deviceErrors es).getLast?, errno.transient = false := by
  rw [LeftFor, hpc]

/-- A thread that makes a step is not behind its loop. -/
theorem leftFor_of_step {e : StatusEvent} (he : sendStatusDataThread s e = some s') :
    LeftFor es s := by
  cases sendStatusDataThread_move he <;> simp [LeftFor, *]

/-- An error of the device ends the loop by what the `printc` left of it. -/
theorem readFailed_leftFor_iff (errno afterPrint : Errno)
    (hpc : s.statusPc = if afterPrint.transient then .whileCond else .exited .deviceFailed) :
    (LeftFor (es ++ [.status (.readFailed errno afterPrint)]) s ↔
      (errno.transient = true → afterPrint.transient = true)) ∧
    (LeftFor (es ++ [.status (.readFailed errno afterPrint)]) s ∨
      s.statusPc = .exited .deviceFailed) := by
  have hlast : (deviceErrors (es ++ [.status (.readFailed errno afterPrint)])).getLast? =
      some errno := by
    rw [deviceErrors_append]
    exact List.getLast?_concat
  cases hprint : afterPrint.transient with
  | true =>
    rw [hprint, if_pos rfl] at hpc
    have hin : LeftFor (es ++ [.status (.readFailed errno afterPrint)]) s := by
      simp [LeftFor, hpc]
    exact ⟨iff_of_true hin fun _ => rfl, .inl hin⟩
  | false =>
    rw [hprint, if_neg (by simp)] at hpc
    refine ⟨?_, .inr hpc⟩
    rw [leftFor_deviceFailed_iff hpc, hlast]
    simp

theorem sendStatusDataThread_leftFor {e : StatusEvent}
    (he : sendStatusDataThread s e = some s') :
    (LeftFor (es ++ [.status e]) s' ↔ Event.KeepsErrno (.status e)) ∧
    (LeftFor (es ++ [.status e]) s' ∨ s'.statusPc = .exited .deviceFailed) := by
  have keeps : Event.KeepsErrno (.status e) → LeftFor (es ++ [.status e]) s' →
      (LeftFor (es ++ [.status e]) s' ↔ Event.KeepsErrno (.status e)) ∧
      (LeftFor (es ++ [.status e]) s' ∨ s'.statusPc = .exited .deviceFailed) :=
    fun hkeeps hleft => ⟨iff_of_true hleft hkeeps, .inl hleft⟩
  have hcall : ∀ (u : State) (call : Call Writen),
      LeftFor (es ++ [.status e]) (sendCall u call) := by
    intro u call
    cases call <;> simp [LeftFor, sendCall]
  cases sendStatusDataThread_move he with
  | malloc _ found =>
    refine keeps trivial ?_
    cases found <;> simp [LeftFor]
  | whileCond =>
    refine keeps trivial ?_
    by_cases hstop : s.sysStatus = .stop <;> simp [LeftFor, hstop]
  | @readDevice _ bytes =>
    refine keeps trivial ?_
    by_cases hnil : bytes = [] <;> simp [LeftFor, hnil]
  | readFailed _ errno afterPrint => exact readFailed_leftFor_iff errno afterPrint rfl
  | callWrite | wrote | writeErr => exact keeps trivial (hcall _ _)
  | testSent =>
    refine keeps trivial ?_
    simp [LeftFor]

/-- The thread leaves its loop for a wrong reason exactly if a `printc` lost an `errno`, and then
it has taken it for an error of the device. -/
theorem run_leftFor_iff (hs : Started c s) (hrun : (threads c).run s es = some t) :
    (LeftFor es t ↔ ∀ e ∈ es, e.KeepsErrno) ∧
    (LeftFor es t ∨ t.statusPc = .exited .deviceFailed) := by
  refine Machine.run_history (I := fun es u => (LeftFor es u ↔ ∀ e ∈ es, e.KeepsErrno) ∧
    (LeftFor es u ∨ u.statusPc = .exited .deviceFailed)) (fun es u e u' hu he => ?_) ?_ hrun
  · obtain ⟨hiff, hor⟩ := hu
    have hsnoc : (∀ x ∈ es ++ [e], x.KeepsErrno) ↔ (∀ x ∈ es, x.KeepsErrno) ∧ e.KeepsErrno := by
      rw [List.forall_mem_append, List.forall_mem_singleton]
    rw [hsnoc]
    -- a step that leaves the status thread where it is
    have other : e.KeepsErrno → e.deviceError = none → u'.statusPc = u.statusPc →
        (u.sysStatus = .stop → u'.sysStatus = .stop) →
        (LeftFor (es ++ [e]) u' ↔ (∀ x ∈ es, x.KeepsErrno) ∧ e.KeepsErrno) ∧
        (LeftFor (es ++ [e]) u' ∨ u'.statusPc = .exited .deviceFailed) := by
      intro hkeeps herror hpc hstop
      rw [and_iff_left hkeeps, ← hiff]
      rcases hor with hleft | hfailed
      · have hleft' := hleft.snoc herror hpc hstop
        exact ⟨iff_of_true hleft' hleft, .inl hleft'⟩
      · have hfailed' := hpc.trans hfailed
        refine ⟨?_, .inr hfailed'⟩
        rw [leftFor_deviceFailed_iff hfailed', leftFor_deviceFailed_iff hfailed,
          deviceErrors_snoc_of_none herror]
    cases e with
    | stop =>
      cases he
      exact other trivial rfl rfl fun _ => rfl
    | cmd e =>
      have hk := readNetCmdThread_kept he
      exact other trivial rfl hk.statusPc fun hstop => hk.sysStatus.trans hstop
    | status e =>
      rw [and_iff_right (hiff.mp (leftFor_of_step he))]
      exact sendStatusDataThread_leftFor he
  · obtain ⟨-, -, -, -, -, -, -, hpc⟩ := hs
    have hstart : LeftFor [] s := by simp [LeftFor, hpc]
    exact ⟨iff_of_true hstart (by simp), .inl hstart⟩

/-- The status stream in every run of the two threads. Up to the first failure of the socket it
has the chunks that were read, except for what is left of the one being sent. That failure cuts
a chunk short; nothing is written after it, and the thread reads on. The thread leaves its loop
only on `Stop` and on a lasting error of the device exactly if no `printc` between a `read` that
failed with `EINTR` or `EAGAIN` and the test of `errno` put another error there. -/
theorem sendStatusDataThread_drains (hs : Started c s)
    (hrun : (threads c).run s es = some t) :
    (es.any Event.socketFails = false → t.socketOut ++ unsent t = (chunksRead es).flatten ∧
      (unsent t = [] ∨ ∃ sent chunk, chunksRead es = sent ++ [chunk] ∧ unsent t <:+ chunk)) ∧
    (∀ pre e post, es = pre ++ e :: post → pre.any Event.socketFails = false →
      e.socketFails = true →
      (∃ sent chunk p, chunksRead pre = sent ++ [chunk] ∧ p <+: chunk ∧ p ≠ chunk ∧
        t.socketOut = sent.flatten ++ p) ∧
      (∀ answer, .status (.socket answer) ∉ post) ∧
      ((∀ why, t.statusPc ≠ .exited why) → t.sysStatus ≠ .stop →
        ∃ n u, (threads c).run t (List.replicate n (.status .local)) = some u ∧
          u.statusPc = .readDevice)) ∧
    (LeftFor es t ↔ ∀ e ∈ es, e.KeepsErrno) := by
  refine ⟨fun hfine => ?_, ?_, (run_leftFor_iff hs hrun).1⟩
  · have h := run_forwarding hs hfine hrun
    exact ⟨h.out, h.part⟩
  · rintro pre e post rfl hfine hfail
    rw [Machine.run_append] at hrun
    obtain ⟨u, hpre, hrest⟩ := Option.bind_eq_some_iff.mp hrun
    obtain ⟨v, he, hpost⟩ := Machine.run_cons_iff.mp hrest
    have h := run_forwarding hs hfine hpre
    obtain ⟨hgiven, hout, hunsent⟩ := step_socketFails h hfail he
    obtain ⟨hgiven', hout', hnone⟩ := run_givenUp hgiven hpost
    refine ⟨?_, hnone, fun hin hstop => hgiven'.reads hin hstop⟩
    obtain ⟨sent, chunk, hchunks, p, hp⟩ := h.part.resolve_left hunsent
    refine ⟨sent, chunk, p, hchunks, ⟨_, hp⟩, ?_, ?_⟩
    · rintro rfl
      exact hunsent (by simpa using hp)
    · rw [hout', hout]
      have hall := h.out
      rw [hchunks, List.flatten_append, List.flatten_singleton, ← hp, ← List.append_assoc] at hall
      exact List.append_cancel_right hall

/-- Two bytes are forwarded and then the first of three. -/
def firstOfThree : List Event :=
  [.status (.malloc true), .status .local, .status (.readDevice [1, 2]), .status .local,
   .status (.socket (.ok 2)), .status .local, .status .local,
   .status (.readDevice [3, 4, 5]), .status .local, .status (.socket (.ok 1))]

/-- After the connection broke, a chunk is read and thrown away. -/
def oneDrained : List Event :=
  [.status .local, .status .local, .status (.readDevice [6]), .status .local, .status .local]

theorem sendStatusDataThread_drains_brokenPipe : ∃ t,
    (threads (childOn [])).run (childOn []).start
      (firstOfThree ++ .status (.socket (.err (.other 32))) :: oneDrained) = some t ∧
    t.socketOut = [1, 2, 3] ∧
    (∃ sent chunk p, chunksRead firstOfThree = sent ++ [chunk] ∧ p <+: chunk ∧ p ≠ chunk ∧
      t.socketOut = sent.flatten ++ p) ∧
    ∃ n u, (threads (childOn [])).run t (List.replicate n (.status .local)) = some u ∧
      u.statusPc = .readDevice := by
  have hrun : ((threads (childOn [])).run (childOn []).start
      (firstOfThree ++ .status (.socket (.err (.other 32))) :: oneDrained)).map
        (fun s => (s.socketOut, s.statusPc, s.sysStatus)) =
          some ([1, 2, 3], .whileCond, .running) := by decide +kernel
  obtain ⟨t, ht, hout⟩ := Option.map_eq_some_iff.mp hrun
  simp only [Prod.mk.injEq] at hout
  obtain ⟨hout, hpc, hstop⟩ := hout
  obtain ⟨-, hbroken, -⟩ := sendStatusDataThread_drains (childOn []).started_start ht
  obtain ⟨hcut, -, hreads⟩ := hbroken firstOfThree _ oneDrained rfl (by decide) (by decide)
  exact ⟨t, ht, hout, hcut, hreads (by simp [hpc]) (by simp [hstop])⟩

/-- The `read` of the device is interrupted, and `printf` finds no space on its device
(`ENOSPC`). -/
def errnoLost : List Event :=
  [.status (.malloc true), .status .local, .status (.readFailed .EINTR (.other 28))]

/-- The thread leaves its loop though the system runs and the device failed with `EINTR` only. -/
theorem errnoLost_not_leftFor : ∃ t,
    (threads (childOn [])).run (childOn []).start errnoLost = some t ∧
    t.statusPc = .exited .deviceFailed ∧ t.sysStatus = .running ∧
    deviceErrors errnoLost = [.EINTR] ∧ ¬ LeftFor errnoLost t := by
  have hrun : ((threads (childOn [])).run (childOn []).start errnoLost).map
      (fun s => (s.statusPc, s.sysStatus)) = some (.exited .deviceFailed, .running) := by
    decide +kernel
  obtain ⟨t, ht, hpc⟩ := Option.map_eq_some_iff.mp hrun
  simp only [Prod.mk.injEq] at hpc
  obtain ⟨hpc, hstop⟩ := hpc
  refine ⟨t, ht, hpc, hstop, rfl, ?_⟩
  rw [leftFor_deviceFailed_iff hpc]
  rintro ⟨errno, ⟨⟩, hlasting⟩
  cases hlasting

end ITrace.CmdStatusTrans
