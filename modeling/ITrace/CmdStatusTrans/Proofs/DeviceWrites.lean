import ITrace.CmdStatusTrans.Device
import ITrace.General.Proofs.ExactWrites

/-!
# Writing to the device in pieces

`writen_to_cmd_status_dev` as one loop around `write`: the loop of `writen` within, and the turn of
the outer loop taken as soon as `writen` returns. It transfers its buffer as `writen` does, in
pieces of at most `max_write_len_once` bytes, and what it returns after a failure are whole pieces.
-/

namespace ITrace.CmdStatusTrans

open ITrace

/-- Where `writen` has returned, the rest of the turn and the start of the next one. -/
def WritenToDev.settle : Call WritenToDev → Call WritenToDev
  | .running l =>
      match l.call with
      | .running _ => .running l
      | .returned ret => l.returned ret
  | .returned ret => .returned ret

/-- The loop of `writen_to_cmd_status_dev` around `write`. -/
def devLoop : IoLoop WritenToDev where
  ptr l := match l.call with
    | .running call => call.ptr
    | .returned _ => 0
  count l := match l.call with
    | .running call => call.nleft
    | .returned _ => 0
  step l answer := match l.call with
    | .running call => WritenToDev.settle (.running { l with call := call.step answer })
    | .returned ret => l.returned ret

/-- `writen_to_cmd_status_dev(fd, data, len)` up to its first `write`, or to its end. -/
def devCallStart (fd : Int) (data len : Nat) : Call WritenToDev :=
  WritenToDev.settle (writenToCmdStatusDev fd data len)

/-- The bytes the device has still to accept. -/
def WritenToDev.rest (l : WritenToDev) : Nat :=
  match l.call with
  | .running call => l.leftLen - (writeLen l.leftLen - call.nleft)
  | .returned _ => 0

/-- `writen_to_cmd_status_dev` after `put` bytes: in a `write` of a piece, all pieces before it
being whole, or returned with `len` or the length of the whole pieces. -/
def DevStands (data len put : Nat) : Call WritenToDev → Prop
  | .running l =>
      WritenToDevAt data len put (.running l) ∧ 0 ≤ l.fd ∧
      maxWriteLenOnce ∣ len - l.leftLen ∧ ∃ call, l.call = .running call
  | .returned ret =>
      (ret = len ∧ put = len) ∨
      ∃ r : Nat, ret = r ∧ r < len ∧ maxWriteLenOnce ∣ r ∧ r ≤ put ∧
        put < r + maxWriteLenOnce ∧ put < len

variable {fd : Int} {data len put : Nat} {m : Mem UInt8} {es : List SysResult}

theorem writeLen_le_max (n : Nat) : writeLen n ≤ maxWriteLenOnce := by
  unfold writeLen
  split <;> omega

/-- The outer loop at its head, with `len - leftLen` bytes behind it. -/
theorem loop_stands (hfd : 0 ≤ fd) (data : Nat) {leftLen : Nat} (hle : leftLen ≤ len)
    (hwhole : 0 < leftLen → maxWriteLenOnce ∣ len - leftLen) :
    DevStands data len (len - leftLen) (WritenToDev.loop fd data len leftLen) := by
  have hat := WritenToDev.loop_at fd data len hle
  by_cases hpos : 0 < leftLen
  · rw [WritenToDev.loop, if_pos hpos] at hat ⊢
    exact ⟨hat, hfd, hwhole hpos, _, writen_running hfd _ (writeLen_pos hpos)⟩
  · rw [WritenToDev.loop, if_neg hpos]
    exact .inl ⟨rfl, by omega⟩

/-- After a whole piece the next one starts on a multiple of the size of a piece. -/
theorem whole_next {leftLen : Nat} (hle : leftLen ≤ len)
    (hwhole : maxWriteLenOnce ∣ len - leftLen) (hpos : 0 < leftLen - writeLen leftLen) :
    maxWriteLenOnce ∣ len - (leftLen - writeLen leftLen) := by
  have hfull : writeLen leftLen = maxWriteLenOnce := by
    by_contra hne
    unfold writeLen at hne hpos
    split at hne
    · exact hne rfl
    · rename_i hsmall
      rw [if_neg hsmall] at hpos
      omega
  have hsum : len - (leftLen - writeLen leftLen) = (len - leftLen) + maxWriteLenOnce := by
    omega
  rw [hsum]
  exact Nat.dvd_add hwhole (Nat.dvd_refl _)

theorem settle_stands {l : WritenToDev} (hat : WritenToDevAt data len put (.running l))
    (hfd : 0 ≤ l.fd) (hwhole : maxWriteLenOnce ∣ len - l.leftLen) :
    DevStands data len put (WritenToDev.settle (.running l)) := by
  cases hc : l.call with
  | running call =>
    rw [WritenToDev.settle, hc]
    exact ⟨hat, hfd, hwhole, call, hc⟩
  | returned ret =>
    obtain ⟨hdata, hlen, hpos, hle, k, hput, hw⟩ := hat
    rw [hc] at hw
    have hwl := writeLen_le l.leftLen
    have hmax := writeLen_le_max l.leftLen
    rw [WritenToDev.settle, hc]
    simp only [WritenToDev.returned]
    rcases hw with ⟨hret, hk⟩ | ⟨hret, hk⟩
    · rw [if_neg (not_not_intro hret), hdata, hlen, hret, Int.toNat_natCast]
      have hnext := loop_stands hfd data
        (show l.leftLen - writeLen l.leftLen ≤ len by omega) (whole_next hle hwhole)
      have hsum : len - (l.leftLen - writeLen l.leftLen) = put := by omega
      rwa [hsum] at hnext
    · have hwp := writeLen_pos hpos
      rw [if_pos (by omega)]
      exact .inr ⟨len - l.leftLen, by omega, by omega, hwhole, by omega, by omega, by omega⟩

/-- `writen` returns 0 for a negative descriptor. -/
theorem devCallStart_negative (hfd : fd < 0) (data len : Nat) :
    devCallStart fd data len = .returned 0 := by
  rw [devCallStart, writenToCmdStatusDev, WritenToDev.loop]
  by_cases hpos : 0 < len
  · have hwp := writeLen_pos hpos
    have hret : writen fd (data + len - len) (writeLen len) = .returned 0 := by
      rw [writen, if_pos hfd]
    rw [if_pos hpos, hret]
    simp only [WritenToDev.settle, WritenToDev.returned]
    rw [if_pos (by omega), Int.sub_self]
  · have hlen : len = 0 := by omega
    subst hlen
    rfl

theorem devCallStart_stands (fd : Int) (data len : Nat) :
    DevStands data len 0 (devCallStart fd data len) := by
  rw [devCallStart]
  by_cases hfd : 0 ≤ fd
  · have hloop := loop_stands hfd data (Nat.le_refl len) (by simp)
    rw [Nat.sub_self] at hloop
    rw [writenToCmdStatusDev]
    cases hc : WritenToDev.loop fd data len len with
    | returned ret =>
      rw [hc] at hloop
      exact hloop
    | running l =>
      rw [hc] at hloop
      exact settle_stands hloop.1 hloop.2.1 hloop.2.2.1
  · have hneg := devCallStart_negative (show fd < 0 by omega) data len
    rw [devCallStart] at hneg
    rw [hneg]
    by_cases hpos : 0 < len
    · exact .inr ⟨0, rfl, hpos, Nat.dvd_zero _, Nat.le_refl 0, by decide, hpos⟩
    · exact .inl ⟨by omega, by omega⟩

theorem devLoop_step {l : WritenToDev} {call : Writen} (hc : l.call = .running call)
    (answer : SysResult) :
    devLoop.step l answer = WritenToDev.settle (.running { l with call := call.step answer }) := by
  simp only [devLoop, hc]

theorem dev_moves (data len : Nat) :
    devLoop.Moves WritenToDev.rest data len (DevStands data len) := by
  have hbody : ∀ {put l call}, DevStands data len put (.running l) → l.call = .running call →
      call.ptr = data + put ∧ call.nleft ≤ l.rest ∧ l.rest + put = len := by
    rintro put l call ⟨⟨-, -, hpos, hle, k, hput, hw⟩, -⟩ hc
    have hwl := writeLen_le l.leftLen
    rw [hc] at hw
    obtain ⟨-, -, hleft, hptr⟩ := hw
    have hrest : l.rest = l.leftLen - (writeLen l.leftLen - call.nleft) := by
      rw [WritenToDev.rest, hc]
    exact ⟨by omega, by omega, by omega⟩
  constructor
  · intro put l h
    obtain ⟨call, hc⟩ := h.2.2.2
    simp only [devLoop, hc]
    exact (hbody h hc).1
  · intro put l h
    obtain ⟨call, hc⟩ := h.2.2.2
    simp only [devLoop, hc]
    exact (hbody h hc).2.1
  · intro put l h
    obtain ⟨call, hc⟩ := h.2.2.2
    exact (hbody h hc).2.2
  · intro put l k h hk
    obtain ⟨hat, hfd, hwhole, call, hc⟩ := h
    simp only [devLoop, hc] at hk
    rw [devLoop_step hc]
    exact settle_stands (hat.step_ok hc hk) hfd hwhole
  · intro put l h e
    obtain ⟨hat, hfd, hwhole, call, hc⟩ := h
    rw [devLoop_step hc]
    exact settle_stands (hat.step_err hc e) hfd hwhole

/-- A failed `writen` ends the function. -/
theorem settle_failed {l : WritenToDev} (hpos : 0 < l.leftLen) (hc : l.call = .returned (-1)) :
    WritenToDev.settle (.running l) = .returned (l.len - l.leftLen) := by
  have hwp := writeLen_pos hpos
  simp only [WritenToDev.settle, hc, WritenToDev.returned]
  rw [if_pos (by omega)]

theorem dev_retries (data len : Nat) : devLoop.Retries (DevStands data len) := by
  have hnleft : ∀ {put l call}, DevStands data len put (.running l) → l.call = .running call →
      0 < call.nleft := by
    rintro put l call ⟨⟨-, -, -, -, k, -, hw⟩, -⟩ hc
    rw [hc] at hw
    exact hw.2.1
  have hfails : ∀ {put l call answer}, DevStands data len put (.running l) →
      l.call = .running call → call.step answer = .returned (-1) →
      devLoop.step l answer = .returned (l.len - l.leftLen) := by
    intro put l call answer h hc hret
    rw [devLoop_step hc, hret]
    exact settle_failed h.1.2.2.1 rfl
  constructor
  · intro put l h
    obtain ⟨call, hc⟩ := h.2.2.2
    simp only [devLoop, hc]
    exact hnleft h hc
  · intro put l e h he
    obtain ⟨call, hc⟩ := h.2.2.2
    have hsame : call.step (.err e) = .running call := by
      rw [Writen.step, if_pos he, Writen.loop, if_pos (hnleft h hc)]
    have hl : { l with call := Call.running call } = l := by rw [← hc]
    rw [devLoop_step hc, hsame, hl]
    simp only [WritenToDev.settle, hc]
  · intro put l e h he
    obtain ⟨call, hc⟩ := h.2.2.2
    refine ⟨_, hfails h hc ?_⟩
    rw [Writen.step, if_neg (by simp [he])]
  · intro put l h
    obtain ⟨call, hc⟩ := h.2.2.2
    exact ⟨_, hfails h hc rfl⟩

/-- After a `write` that accepted something the function returns only when all is accepted. -/
theorem dev_full {l : WritenToDev} {k : Nat} {ret : Int}
    (h : DevStands data len put (.running l)) (hk : k + 1 ≤ devLoop.count l)
    (hret : devLoop.step l (.ok (k + 1)) = .returned ret) : put + (k + 1) = len := by
  have hlast := (dev_moves data len).step_ok h hk
  obtain ⟨hat, hfd, -, call, hc⟩ := h
  rw [hret] at hlast
  suffices hlen : ret = len by
    rcases hlast with ⟨-, hput⟩ | ⟨r, hr, hlt, -⟩ <;> omega
  rw [devLoop_step hc] at hret
  cases hcall : call.step (.ok (k + 1)) with
  | running next => simp [WritenToDev.settle, hcall] at hret
  | returned wret =>
    -- the piece is through, so the next one starts or there is none
    obtain ⟨-, hlen, hpos, -, j, -, hw⟩ := hat
    rw [hc] at hw
    have hn := Writen.loop_ret (show Writen.loop _ = _ from hcall)
    have hwhole : wret = writeLen l.leftLen := by
      rw [← hw.1]
      exact hn
    simp only [WritenToDev.settle, hcall, WritenToDev.returned] at hret
    rw [if_neg (not_not_intro hwhole), WritenToDev.loop] at hret
    split at hret
    · cases hret
    · rw [← hlen]
      exact (Call.returned.inj hret).symm

/-- Before its first `write` the function returns with less than `len` on a negative descriptor
only. -/
theorem devCallStart_short {ret : Int} (hret : devCallStart fd data len = .returned ret)
    (hne : ret ≠ len) : fd < 0 := by
  by_contra hfd
  rw [devCallStart, writenToCmdStatusDev, WritenToDev.loop] at hret
  by_cases hpos : 0 < len
  · rw [if_pos hpos, writen_running (Int.not_lt.mp hfd) _ (writeLen_pos hpos)] at hret
    cases hret
  · rw [if_neg hpos] at hret
    exact hne (Call.returned.inj hret).symm

/-- No piece is longer than `max_write_len_once`. -/
theorem DevStands.count_le {l : WritenToDev} (h : DevStands data len put (.running l)) :
    devLoop.count l ≤ maxWriteLenOnce := by
  obtain ⟨⟨-, -, -, -, k, -, hw⟩, -, -, call, hc⟩ := h
  rw [hc] at hw
  have hleft := hw.2.2.1
  have hmax := writeLen_le_max l.leftLen
  simp only [devLoop, hc]
  omega

theorem DevStands.put_le {c : Call WritenToDev} (h : DevStands data len put c) : put ≤ len := by
  cases c with
  | running l =>
    have hrest := (dev_moves data len).rest_eq h
    omega
  | returned ret =>
    rcases h with ⟨-, hput⟩ | ⟨r, -, -, -, -, -, hput⟩ <;> omega

/-! ### One `writen` of the whole buffer -/

/-- `writen` of the whole buffer after `put` bytes. -/
def wholeAt (fd : Int) (data len put : Nat) : Call Writen :=
  Writen.loop ⟨fd, data + put, len, len - put⟩

/-- As long as the pieces did not fail, one `writen` of the whole buffer with the same answers has
written the same. -/
def SameAsWhole (m : Mem UInt8) (fd : Int) (data len : Nat) (es : List SysResult)
    (s : IoLoop.Sending WritenToDev UInt8) : Prop :=
  DevStands data len s.out.length s.call ∧
  ((∀ ret : Int, s.call = .returned ret → ret = len) →
    (writenLoop.sending m (writen fd data len)).run ⟨writen fd data len, []⟩ es =
      some ⟨wholeAt fd data len s.out.length, s.out⟩)

theorem wholeAt_running (hput : put < len) :
    wholeAt fd data len put = .running ⟨fd, data + put, len, len - put⟩ := by
  rw [wholeAt, Writen.loop, if_pos (by simp only; omega)]

theorem wholeAt_accepts {out : List UInt8} {k : Nat} (hk : put + (k + 1) ≤ len) :
    (writenLoop.sending m (writen fd data len)).step ⟨wholeAt fd data len put, out⟩ (.ok (k + 1)) =
      some ⟨wholeAt fd data len (put + (k + 1)), out ++ m.load (data + put) (k + 1)⟩ := by
  have hroom : k + 1 ≤ writenLoop.count ⟨fd, data + put, len, len - put⟩ := by
    show k + 1 ≤ len - put
    omega
  have hnext : writenLoop.step ⟨fd, data + put, len, len - put⟩ (.ok (k + 1)) =
      wholeAt fd data len (put + (k + 1)) := by
    show Writen.loop ⟨fd, data + put + (k + 1), len, len - put - (k + 1)⟩ = _
    rw [wholeAt, Nat.add_assoc, Nat.sub_sub]
  rw [IoLoop.sending_ok (wholeAt_running (by omega)) hroom, hnext]
  rfl

theorem wholeAt_retries {out : List UInt8} {e : Errno} (hput : put < len)
    (he : e.transient = true) :
    (writenLoop.sending m (writen fd data len)).step ⟨wholeAt fd data len put, out⟩ (.err e) =
      some ⟨wholeAt fd data len put, out⟩ := by
  have hsame : writenLoop.step ⟨fd, data + put, len, len - put⟩ (.err e) =
      wholeAt fd data len put := by
    show Writen.step _ (.err e) = _
    rw [Writen.step, if_pos he]
    rfl
  rw [IoLoop.sending_err (wholeAt_running hput), hsame]

/-- A call that returned before the whole buffer was accepted did not return `len`. -/
theorem DevStands.failed {c : Call WritenToDev} (h : DevStands data len put c) (hput : put < len)
    (hc : ∃ ret, c = .returned ret) : ¬ ∀ ret : Int, c = .returned ret → ret = len := by
  obtain ⟨ret, rfl⟩ := hc
  intro hall
  have hret := hall ret rfl
  rcases h with ⟨-, hall⟩ | ⟨r, hr, hlt, -⟩ <;> omega

theorem step_sameAsWhole {answer : SysResult} {s s' : IoLoop.Sending WritenToDev UInt8}
    (h : SameAsWhole m fd data len es s)
    (he : (devLoop.sending m (devCallStart fd data len)).step s answer = some s') :
    SameAsWhole m fd data len (es ++ [answer]) s' := by
  obtain ⟨hs, hwhole⟩ := h
  obtain ⟨l, hc, h⟩ := IoLoop.sending_cases he
  rw [hc] at hs
  have hwhole := hwhole (by simp [hc])
  have hmoves := dev_moves data len
  have hretries := dev_retries data len
  have hptr := hmoves.ptr hs
  have hput : s.out.length + devLoop.count l ≤ len := by
    have hcount := hmoves.count_le hs
    have hrest := hmoves.rest_eq hs
    omega
  have hlt : s.out.length < len := by
    have hpos := hretries.pos hs
    omega
  have hone : ∀ u, (writenLoop.sending m (writen fd data len)).step
      ⟨wholeAt fd data len s.out.length, s.out⟩ answer = some u →
      (writenLoop.sending m (writen fd data len)).run ⟨writen fd data len, []⟩
        (es ++ [answer]) = some u := by
    intro u hu
    rw [Machine.run_append, hwhole, Option.bind_some]
    exact Machine.run_cons_iff.mpr ⟨u, hu, rfl⟩
  rcases h with ⟨k, rfl, hk, rfl⟩ | ⟨e, rfl, rfl⟩
  · have hnext := hmoves.step_ok hs hk
    rw [SameAsWhole, List.length_append, Mem.length_load]
    refine ⟨hnext, fun hfine => hone _ ?_⟩
    cases k with
    | zero => exact absurd hfine (hnext.failed hlt (hretries.nothing hs))
    | succ k => rw [wholeAt_accepts (by omega), hptr]
  · have hnext := hmoves.step_err hs e
    refine ⟨hnext, fun hfine => hone _ ?_⟩
    cases he : e.transient with
    | true => exact wholeAt_retries hlt he
    | false => exact absurd hfine (hnext.failed hlt (hretries.lasting hs he))

/-- A negative descriptor is refused at once, and so is one `writen` of the whole buffer. -/
theorem writen_start (h : fd < 0 → devCallStart fd data len = .returned len) :
    writen fd data len = wholeAt fd data len 0 := by
  by_cases hfd : fd < 0
  · have hret := h hfd
    rw [devCallStart_negative hfd] at hret
    have hlen : (0 : Int) = len := Call.returned.inj hret
    have hzero : len = 0 := by omega
    subst hzero
    rw [writen, if_pos hfd]
    rfl
  · rw [writen, if_neg hfd]
    rfl

theorem run_sameAsWhole (hstart : writen fd data len = wholeAt fd data len 0)
    {s : IoLoop.Sending WritenToDev UInt8}
    (hrun : (devLoop.sending m (devCallStart fd data len)).run ⟨devCallStart fd data len, []⟩ es =
      some s) : SameAsWhole m fd data len es s := by
  refine Machine.run_history (I := SameAsWhole m fd data len)
    (fun es s answer s' hs he => step_sameAsWhole hs he) ?_ hrun
  refine ⟨devCallStart_stands fd data len, fun _ => ?_⟩
  rw [Machine.run_nil]
  exact congrArg (fun c => some (IoLoop.Sending.mk c [])) hstart

/-- Nothing follows a call that has returned. -/
theorem run_returned {start : Call WritenToDev} {ret : Int} {out : List UInt8}
    {s : IoLoop.Sending WritenToDev UInt8}
    (hrun : (devLoop.sending m start).run ⟨.returned ret, out⟩ es = some s) :
    s.call = .returned ret := by
  cases es with
  | nil =>
    rw [Machine.run_nil] at hrun
    exact (Option.some.inj hrun) ▸ rfl
  | cons answer rest =>
    obtain ⟨u, hu, -⟩ := Machine.run_cons_iff.mp hrun
    obtain ⟨l, hc, -⟩ := IoLoop.sending_cases hu
    exact absurd hc (by simp)

/-- What the device has, wherever the call stands. -/
theorem dev_sent {t : IoLoop.Sending WritenToDev UInt8}
    (h : (devLoop.sending m (devCallStart fd data len)).Reachable t) :
    DevStands data len t.out.length t.call ∧ t.out = m.load data t.out.length ∧
    t.out <+: m.load data len := by
  obtain ⟨t₀, answers, rfl, hrun⟩ := h
  obtain ⟨hstands, hout⟩ := (dev_moves data len).sent (devCallStart_stands fd data len) hrun
  refine ⟨hstands, hout, ?_⟩
  rw [hout]
  exact Mem.load_prefix _ _ hstands.put_le

/-- For every buffer of `len` bytes at `data`, at every point of every run of
`writen_to_cmd_status_dev`: a `write` is for at most `max_write_len_once` bytes, and the device has
the beginning of the buffer. Once the function has returned, the result is `len` exactly if the
device has the whole buffer, and then one `writen` of the whole buffer writes the same with the
same answers; otherwise it is the length of the whole pieces the device has, and the descriptor is
negative or the last `write` accepted nothing or failed for good. With finitely many transient
errors the function returns. -/
theorem writenToCmdStatusDev_exact (m : Mem UInt8) (fd : Int) (data len : Nat) :
    (∀ es s, (devLoop.sending m (devCallStart fd data len)).run
        ⟨devCallStart fd data len, []⟩ es = some s →
      (∀ l, s.call = .running l → devLoop.count l ≤ maxWriteLenOnce) ∧
      s.out <+: m.load data len ∧
      ∀ ret, s.call = .returned ret →
        (ret = len ↔ s.out = m.load data len) ∧
        (ret ≠ len → ∃ r : Nat, ret = r ∧ r < len ∧ maxWriteLenOnce ∣ r ∧
          r ≤ s.out.length ∧ s.out.length < r + maxWriteLenOnce) ∧
        (ret ≠ len → fd < 0 ∨ ∃ answer ∈ es.getLast?, answer.ends = true) ∧
        (ret = len →
          (writenLoop.sending m (writen fd data len)).run ⟨writen fd data len, []⟩ es =
            some ⟨.returned len, s.out⟩)) ∧
    ∀ script : Nat → SysResult, {i | (script i).transient = true}.Finite →
      (devLoop.sending m (devCallStart fd data len)).Follows
        (fun s => ∃ ret, s.call = .returned ret) ⟨devCallStart fd data len, []⟩ script →
      ∃ k s ret, (devLoop.sending m (devCallStart fd data len)).follow
        ⟨devCallStart fd data len, []⟩ script k = some s ∧ s.call = .returned ret := by
  have hmoves := dev_moves data len
  have hstands := devCallStart_stands fd data len
  constructor
  · intro es s hrun
    obtain ⟨hat, hout⟩ := hmoves.sent hstands hrun
    refine ⟨?_, ?_, ?_⟩
    · intro l hc
      rw [hc] at hat
      exact hat.count_le
    · rw [hout]
      exact m.load_prefix data hat.put_le
    · intro ret hc
      rw [Mem.eq_load_iff hout]
      rw [hc] at hat
      refine ⟨?_, ?_, ?_, ?_⟩
      · rcases hat with ⟨hret, hput⟩ | ⟨r, hret, hr, -, -, -, hput⟩
        · exact ⟨fun _ => hput, fun _ => hret⟩
        · exact ⟨by omega, by omega⟩
      · intro hne
        rcases hat with ⟨hret, -⟩ | ⟨r, hret, hr, hdvd, hle, hlt, -⟩
        · exact absurd hret hne
        · exact ⟨r, hret, hr, hdvd, hle, hlt⟩
      · intro hne
        have hshort : s.out.length ≠ len := by
          rcases hat with ⟨hret, -⟩ | ⟨r, -, -, -, -, -, hput⟩
          · exact absurd hret hne
          · exact Nat.ne_of_lt hput
        exact (hmoves.sending_short (dev_retries data len) dev_full hstands hrun hc hshort).imp_left
          fun hstart => devCallStart_short hstart hne
      · rintro rfl
        have hput : s.out.length = len := by
          rcases hat with ⟨-, hput⟩ | ⟨r, hret, hr, -⟩
          · exact hput
          · omega
        have hstart : writen fd data len = wholeAt fd data len 0 := by
          apply writen_start
          intro hfd
          have hneg := devCallStart_negative hfd data len
          rw [hneg] at hrun ⊢
          rw [← run_returned hrun, hc]
        have hsame := (run_sameAsWhole hstart hrun).2 (by simp [hc])
        rw [hsame, hput, wholeAt, Writen.loop, if_neg (by simp)]
  · intro script hfinite hfollows
    exact hmoves.returns (dev_retries data len) hstands (fun es t => IoLoop.calls_of_sending)
      hfinite hfollows

/-- Three bytes that the device accepts in two calls, as one `writen` would write them; and a device
that fails after two of them, where 0 is returned. -/
theorem writenToCmdStatusDev_exact_threeBytes :
    (devLoop.sending (fun i => UInt8.ofNat (7 + i)) (devCallStart 5 0 3)).run
      ⟨devCallStart 5 0 3, []⟩ [.ok 2, .ok 1] = some ⟨.returned 3, [7, 8, 9]⟩ ∧
    (writenLoop.sending (fun i => UInt8.ofNat (7 + i)) (writen 5 0 3)).run ⟨writen 5 0 3, []⟩
      [.ok 2, .ok 1] = some ⟨.returned 3, [7, 8, 9]⟩ ∧
    ([7, 8] : List UInt8) <+: Mem.load (fun i => UInt8.ofNat (7 + i)) 0 3 ∧
    (∃ answer ∈ [SysResult.ok 2, .err .EBADF].getLast?, answer.ends = true) ∧
    ∃ k s ret, (devLoop.sending (fun i => UInt8.ofNat (7 + i)) (devCallStart 5 0 3)).follow
      ⟨devCallStart 5 0 3, []⟩ interrupted k = some s ∧ s.call = .returned ret := by
  obtain ⟨hruns, hreturns⟩ := writenToCmdStatusDev_exact (fun i => UInt8.ofNat (7 + i)) 5 0 3
  have hwhole : (devLoop.sending (fun i => UInt8.ofNat (7 + i)) (devCallStart 5 0 3)).run
      ⟨devCallStart 5 0 3, []⟩ [.ok 2, .ok 1] = some ⟨.returned 3, [7, 8, 9]⟩ := rfl
  have hfailed : (devLoop.sending (fun i => UInt8.ofNat (7 + i)) (devCallStart 5 0 3)).run
      ⟨devCallStart 5 0 3, []⟩ [.ok 2, .err .EBADF] = some ⟨.returned 0, [7, 8]⟩ := rfl
  obtain ⟨-, hsent, hret⟩ := hruns _ _ hfailed
  refine ⟨hwhole, ((hruns _ _ hwhole).2.2 3 rfl).2.2.2 rfl, hsent,
    ((hret 0 rfl).2.2.1 (by decide)).resolve_left (by decide), ?_⟩
  apply hreturns interrupted finite_interrupted
  exact (dev_moves 0 3).follows (dev_retries 0 3) (devCallStart_stands 5 0 3) interrupted_answers

end ITrace.CmdStatusTrans
