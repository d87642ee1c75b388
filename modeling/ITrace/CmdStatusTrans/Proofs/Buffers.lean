import ITrace.CmdStatusTrans.Proofs.StatusDrain

/-!
# The buffers of the two threads

`cmd_cache` has 512 bytes and `status_buf` has `max_read_len_once`. A frame has 256 bytes at most,
so every call of the command thread stays in the first half of its cache, whose second half keeps
the zeros it was initialised with. The calls of the status thread stay in its buffer.
-/

namespace ITrace.CmdStatusTrans

/-- `sizeof(cmd_cache)`. -/
def cmdCacheSize : Nat := 512

/-- The longest frame: a length byte and what it can say. -/
def maxFrame : Nat := 256

/-- What the status thread is about to send, or is sending, lies in its buffer. -/
def StatusInside (s : State) : Prop :=
  match s.statusPc with
  | .callWrite => s.readRet ≤ maxReadLenOnce
  | .writeSocket call => 0 < call.nleft ∧ call.ptr + call.nleft ≤ maxReadLenOnce
  | _ => True

variable {c : Child} {s s' t : State} {es : List Event}

theorem bodyLen_lt (s : State) : bodyLen s < maxFrame := UInt8.toNat_lt _

/-! ### The command cache -/

/-- Nothing was stored into the second half of the cache. -/
def CacheClean (s : State) : Prop := ∀ i, maxFrame ≤ i → s.cmdCache i = 0

theorem headerCall_cache (s : State) (call : Call Readn) :
    (headerCall s call).cmdCache = s.cmdCache := by
  cases call <;> rfl

theorem bodyCall_cache (s : State) (call : Call Readn) :
    (bodyCall s call).cmdCache = s.cmdCache := by
  cases call <;> rfl

theorem devCall_cache (s : State) (call : Call WritenToDev) :
    (devCall s call).cmdCache = s.cmdCache := by
  cases call <;> rfl

/-- A read that stays in the first half leaves the second one alone. -/
theorem CacheClean.socketRead {call : Readn} {answer : SysResult} (h : CacheClean s)
    (hin : call.ptr + call.nleft ≤ maxFrame) (hu : socketRead s call answer = some s') :
    CacheClean s' := by
  rcases socketRead_cases hu with ⟨k, -, -, hk, -, rfl⟩ | ⟨e, -, -, rfl⟩
  · intro i hi
    have hlen : (s.incoming.take k).length ≤ k := List.length_take_le ..
    simp only
    rw [Mem.store_of_ge _ _ (by omega)]
    exact h i hi
  · exact h

theorem CmdAt.readHeader_inside {call : Readn} (h : CmdAt c s) (hpc : s.cmdPc = .readHeader call) :
    call.ptr = 0 ∧ call.nleft = 1 := by
  simp only [CmdAt, hpc] at h
  obtain ⟨⟨-, hpos, hleft, hptr⟩, -⟩ := h
  exact ⟨hptr, by omega⟩

theorem CmdAt.readBody_inside {call : Readn} (h : CmdAt c s) (hpc : s.cmdPc = .readBody call) :
    1 ≤ call.ptr ∧ call.ptr + call.nleft = bodyLen s + 1 := by
  simp only [CmdAt, hpc] at h
  obtain ⟨got, ⟨-, hpos, hleft, hptr⟩, -⟩ := h
  omega

/-- The frame is written in one piece, and what is left of it ends where the frame ends. -/
theorem CmdAt.writeDev_inside {l : WritenToDev} {call : Writen} (h : CmdAt c s)
    (hpc : s.cmdPc = .writeDev l) (hcall : l.call = .running call) :
    call.ptr + call.nleft ≤ bodyLen s + 1 := by
  simp only [CmdAt, hpc] at h
  obtain ⟨-, put, ⟨-, -, -, hle, k, -, hw⟩, -⟩ := h
  rw [hcall] at hw
  obtain ⟨-, -, hleft, hptr⟩ := hw
  have hwl := writeLen_le l.leftLen
  omega

theorem readNetCmdThread_cache {e : CmdEvent} (hat : CmdAt c s) (h : CacheClean s)
    (he : readNetCmdThread s e = some s') : CacheClean s' := by
  have hlt := bodyLen_lt s
  cases readNetCmdThread_move he with
  | callHeader =>
    rw [CacheClean, headerCall_cache]
    exact h
  | readHeader hpc hu =>
    obtain ⟨hptr, hleft⟩ := hat.readHeader_inside hpc
    rw [CacheClean, headerCall_cache]
    exact h.socketRead (by rw [hptr, hleft]; decide) hu
  | callBody =>
    rw [CacheClean, bodyCall_cache]
    exact h
  | readBody hpc hu =>
    obtain ⟨-, hend⟩ := hat.readBody_inside hpc
    rw [CacheClean, bodyCall_cache]
    exact h.socketRead (by omega) hu
  | dispatch | pieceDone =>
    rw [CacheClean, devCall_cache]
    exact h
  | whileCond | resetSet | resetClear | wrote | writeErr => exact h

theorem cacheClean_of_reachable (hs : (threads c).Reachable s) : CacheClean s := by
  have hstep : ∀ (u : State) (e : Event) (u' : State), CmdAt c u ∧ CacheClean u →
      (threads c).step u e = some u' → CmdAt c u' ∧ CacheClean u' := by
    intro u e u' ⟨hat, h⟩ he
    refine ⟨step_cmdAt hat he, ?_⟩
    cases e with
    | stop =>
      cases he
      exact h
    | cmd e => exact readNetCmdThread_cache hat h he
    | status e =>
      rw [CacheClean, (sendStatusDataThread_kept he).cmdCache]
      exact h
  refine (hs.invariant (fun u (hu : Started c u) => ?_) hstep).2
  refine ⟨cmdAt_of_started hu, fun i _ => ?_⟩
  rw [hu.2.2.2.2.2.2.1]

/-! ### The status buffer -/

theorem sendCall_inside {u : State} {call : Call Writen}
    (hcall : ∀ l, call = .running l → 0 < l.nleft ∧ l.ptr + l.nleft ≤ maxReadLenOnce) :
    StatusInside (sendCall u call) := by
  cases call with
  | running l => exact hcall l rfl
  | returned ret => trivial

theorem sendCall_statusBuf (s : State) (call : Call Writen) :
    (sendCall s call).statusBuf = s.statusBuf := by
  cases call <;> rfl

/-- The loop in `writen` stays within what it was given. -/
theorem writen_step_inside {l l' : Writen} {answer : SysResult} (hpos : 0 < l.nleft)
    (h : l.step answer = .running l') : 0 < l'.nleft ∧ l'.ptr + l'.nleft = l.ptr + l.nleft := by
  rcases Writen.step_cases hpos answer with ⟨e, -, -, hstep⟩ | ⟨ret, hstep⟩ |
    ⟨k, l'', -, hstep, hpos', hleft, hptr⟩
  · cases hstep.symm.trans h
    exact ⟨hpos, rfl⟩
  · cases hstep.symm.trans h
  · cases hstep.symm.trans h
    omega

/-- The status thread stores into its buffer only. -/
theorem sendStatusDataThread_inside {e : StatusEvent} (h : StatusInside s)
    (he : sendStatusDataThread s e = some s') :
    StatusInside s' ∧ ∀ i, maxReadLenOnce ≤ i → s'.statusBuf i = s.statusBuf i := by
  cases sendStatusDataThread_move he with
  | malloc hpc found =>
    refine ⟨?_, fun i _ => rfl⟩
    cases found <;> trivial
  | whileCond =>
    refine ⟨?_, fun i _ => rfl⟩
    by_cases hstop : s.sysStatus = .stop <;> simp [StatusInside, hstop]
  | @readDevice hpc bytes hlen =>
    refine ⟨?_, fun i hi => ?_⟩
    · by_cases hnil : bytes.length = 0
      · simp [StatusInside, hnil]
      · simp only [StatusInside, hnil, if_false]
        omega
    · simp only
      rw [Mem.store_of_ge _ _ (by omega)]
  | readFailed hpc errno afterPrint =>
    refine ⟨?_, fun i _ => rfl⟩
    cases htransient : afterPrint.transient <;> simp [StatusInside]
  | callWrite hpc =>
    simp only [StatusInside, hpc] at h
    refine ⟨sendCall_inside fun l hl => ?_, fun i _ => by rw [sendCall_statusBuf]⟩
    have hat := writen_at s.socketFd 0 s.readRet.toNat
    rw [hl] at hat
    obtain ⟨-, hpos, hleft, hptr⟩ := hat
    omega
  | wrote hpc hk =>
    simp only [StatusInside, hpc] at h
    refine ⟨sendCall_inside fun l hl => ?_, fun i _ => by rw [sendCall_statusBuf]⟩
    obtain ⟨hpos, hend⟩ := writen_step_inside h.1 hl
    omega
  | writeErr hpc errno =>
    simp only [StatusInside, hpc] at h
    refine ⟨sendCall_inside fun l hl => ?_, fun i _ => by rw [sendCall_statusBuf]⟩
    obtain ⟨hpos, hend⟩ := writen_step_inside h.1 hl
    omega
  | testSent => exact ⟨trivial, fun i _ => rfl⟩

theorem step_statusInside {e : Event} (h : StatusInside s) (he : (threads c).step s e = some s') :
    StatusInside s' ∧ ∀ i, maxReadLenOnce ≤ i → s'.statusBuf i = s.statusBuf i := by
  cases e with
  | stop =>
    cases he
    exact ⟨h, fun i _ => rfl⟩
  | cmd e =>
    have hhand := readNetCmdThread_inHand he
    have hbuf : s'.statusBuf = s.statusBuf := congrArg Prod.fst hhand
    have hret : s'.readRet = s.readRet := congrArg Prod.snd hhand
    refine ⟨?_, fun i _ => by rw [hbuf]⟩
    rw [StatusInside, (readNetCmdThread_kept he).statusPc, hret]
    exact h
  | status e => exact sendStatusDataThread_inside h he

theorem statusInside_of_reachable (hs : (threads c).Reachable s) : StatusInside s := by
  refine hs.invariant (fun u (hu : Started c u) => ?_) fun _ _ _ h he => (step_statusInside h he).1
  rw [StatusInside, hu.2.2.2.2.2.2.2]
  trivial

/-- From a reachable state on, the status buffer is stored to within its allocation only. -/
theorem statusBuf_of_run (hs : (threads c).Reachable s) (hrun : (threads c).run s es = some t)
    {i : Nat} (hi : maxReadLenOnce ≤ i) : t.statusBuf i = s.statusBuf i := by
  have hstep : ∀ (u : State) (e : Event) (u' : State),
      StatusInside u ∧ u.statusBuf i = s.statusBuf i → (threads c).step u e = some u' →
      StatusInside u' ∧ u'.statusBuf i = s.statusBuf i := by
    intro u e u' ⟨hu, hbuf⟩ he
    obtain ⟨hu', hkeep⟩ := step_statusInside hu he
    exact ⟨hu', (hkeep i hi).trans hbuf⟩
  exact (Machine.run_invariant hstep ⟨statusInside_of_reachable hs, rfl⟩ hrun).2

/-- No run leaves the two buffers, whatever the client and the device send and however the threads
are interleaved: each call of the command thread stays within the frame it is at, which fits the
first half of the cache, and the other half keeps its zeros; the status thread sends from its
buffer and stores into it only. -/
theorem threads_keepToBuffers (hs : (threads c).Reachable s) :
    (∀ call, s.cmdPc = .readHeader call → call.ptr + call.nleft = 1) ∧
    (∀ call, s.cmdPc = .readBody call → 1 ≤ call.ptr ∧ call.ptr + call.nleft = bodyLen s + 1) ∧
    (∀ l call, s.cmdPc = .writeDev l → l.call = .running call →
      call.ptr + call.nleft ≤ bodyLen s + 1) ∧
    bodyLen s + 1 ≤ maxFrame ∧ maxFrame ≤ cmdCacheSize ∧
    (∀ i, maxFrame ≤ i → s.cmdCache i = 0) ∧
    (∀ call, s.statusPc = .writeSocket call → call.ptr + call.nleft ≤ maxReadLenOnce) ∧
    ∀ es t, (threads c).run s es = some t →
      ∀ i, maxReadLenOnce ≤ i → t.statusBuf i = s.statusBuf i := by
  have hat := cmdAt_of_reachable hs
  have hinside := statusInside_of_reachable hs
  refine ⟨fun call hpc => ?_, fun call hpc => hat.readBody_inside hpc,
    fun l call hpc hcall => hat.writeDev_inside hpc hcall, bodyLen_lt s, by decide,
    cacheClean_of_reachable hs, fun call hpc => ?_, fun es t hrun i hi => statusBuf_of_run hs hrun hi⟩
  · obtain ⟨hptr, hleft⟩ := hat.readHeader_inside hpc
    rw [hptr, hleft]
  · simp only [StatusInside, hpc] at hinside
    exact hinside.2

theorem threads_keepToBuffers_twoFrames : ∃ s,
    (threads twoFrames).run twoFrames.start givenUpWithinFrame = some s ∧
    s.cmdPc = .callBody ∧ s.cmdCache 511 = 0 := by
  have hrun : ((threads twoFrames).run twoFrames.start givenUpWithinFrame).map (fun s => s.cmdPc) =
      some .callBody := by decide +kernel
  obtain ⟨s, hs, hpc⟩ := Option.map_eq_some_iff.mp hrun
  have hreach : (threads twoFrames).Reachable s := ⟨_, _, twoFrames.started_start, hs⟩
  obtain ⟨-, -, -, -, -, hclean, -⟩ := threads_keepToBuffers hreach
  exact ⟨s, hs, hpc, hclean 511 (by decide)⟩

end ITrace.CmdStatusTrans
