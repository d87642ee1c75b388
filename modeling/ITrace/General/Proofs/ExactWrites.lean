import ITrace.General.Syscall
import ITrace.Misc.Transfer

/-!
# `writen` writes exactly

`writen` as a loop that transfers a buffer. Whatever `write` answers, the descriptor gets the
beginning of the buffer, and the whole of it exactly if `writen` says so. The counts are numbers:
no object has more bytes than a `ssize_t` can say, so the conversions between `size_t` and
`ssize_t` keep them.
-/

namespace ITrace

/-- The loop of `writen`. -/
def writenLoop : IoLoop Writen := ⟨Writen.ptr, Writen.nleft, Writen.step⟩

/-- `writen` on an open descriptor, after `put` bytes: it returns `n` or -1. -/
def WritenStands (vptr n put : Nat) (c : Call Writen) : Prop :=
  WritenAt vptr n put c ∧ ∀ ret, c = .returned ret → ret = n ∨ ret = -1

variable {vptr n : Nat} {m : Mem UInt8} {fd : Int}

theorem Writen.loop_ret {l : Writen} {ret : Int} (h : l.loop = .returned ret) : ret = l.n := by
  unfold Writen.loop at h
  split at h
  · cases h
  · exact (Call.returned.inj h).symm

theorem Writen.loop_nleft {l : Writen} {ret : Int} (h : l.loop = .returned ret) : l.nleft = 0 := by
  unfold Writen.loop at h
  split at h
  · cases h
  · exact Nat.eq_zero_of_not_pos (by assumption)

theorem Writen.step_ret {l : Writen} (answer : SysResult) {ret : Int}
    (h : l.step answer = .returned ret) : ret = l.n ∨ ret = -1 := by
  cases answer with
  | err e =>
    rw [Writen.step] at h
    split at h
    · exact .inl (Writen.loop_ret h)
    · exact .inr (Call.returned.inj h).symm
  | ok k =>
    cases k with
    | zero => exact .inr (Call.returned.inj h).symm
    | succ k =>
      rw [Writen.step] at h
      have hn := Writen.loop_ret h
      exact .inl hn

theorem writen_moves (vptr n : Nat) :
    writenLoop.Moves Writen.nleft vptr n (WritenStands vptr n) := by
  constructor
  · intro put l h
    exact h.1.2.2.2
  · intro put l h
    exact Nat.le_refl l.nleft
  · intro put l h
    exact h.1.2.2.1
  · intro put l k h hk
    refine ⟨h.1.step_ok hk, fun ret hret => ?_⟩
    rw [← h.1.1]
    exact Writen.step_ret (.ok k) hret
  · intro put l h e
    refine ⟨h.1.step_err e, fun ret hret => ?_⟩
    rw [← h.1.1]
    exact Writen.step_ret (.err e) hret

theorem writen_retries (vptr n : Nat) : writenLoop.Retries (WritenStands vptr n) := by
  constructor
  · intro put l h
    exact h.1.2.1
  · intro put l e h he
    show l.step (.err e) = .running l
    rw [Writen.step, if_pos he, Writen.loop, if_pos h.1.2.1]
  · intro put l e h he
    refine ⟨-1, ?_⟩
    show l.step (.err e) = .returned (-1)
    rw [Writen.step, if_neg (by simp [he])]
  · intro put l h
    exact ⟨-1, rfl⟩

theorem writen_stands (hfd : 0 ≤ fd) : WritenStands vptr n 0 (writen fd vptr n) := by
  refine ⟨writen_at fd vptr n, fun ret hret => ?_⟩
  rw [writen, if_neg (by omega)] at hret
  exact .inl (Writen.loop_ret hret)

/-- After a `write` that accepted something the loop ends only when all is accepted. -/
theorem writen_full {put k : Nat} {l : Writen} {ret : Int}
    (h : WritenStands vptr n put (.running l)) (hk : k + 1 ≤ writenLoop.count l)
    (hret : writenLoop.step l (.ok (k + 1)) = .returned ret) : put + (k + 1) = n := by
  have hleft : l.nleft - (k + 1) = 0 := Writen.loop_nleft hret
  have hroom : k + 1 ≤ l.nleft := hk
  have hrest := h.1.2.2.1
  omega

/-- For every buffer of `n` bytes at `vptr`: on a negative descriptor `writen` returns 0 at once.
On any other one, at every point of every run, what was accepted is the beginning of the buffer
and the next call covers the rest; once it has returned, the result is `n` exactly if all was
accepted, and -1 otherwise, after a `write` that accepted nothing or failed for good; the transient
errors make no difference; and with finitely many of them it returns. -/
theorem writen_exact (m : Mem UInt8) (fd : Int) (vptr n : Nat) :
    (fd < 0 → ∀ es s,
      (writenLoop.sending m (writen fd vptr n)).run ⟨writen fd vptr n, []⟩ es = some s →
      s = ⟨.returned 0, []⟩) ∧
    (0 ≤ fd →
      (∀ es s,
        (writenLoop.sending m (writen fd vptr n)).run ⟨writen fd vptr n, []⟩ es = some s →
        s.out <+: m.load vptr n ∧
        (∀ l, s.call = .running l → l.ptr = vptr + s.out.length ∧
          m.load l.ptr l.nleft = (m.load vptr n).drop s.out.length) ∧
        (∀ ret, s.call = .returned ret → (ret = n ↔ s.out = m.load vptr n) ∧
          (ret ≠ n → ret = -1 ∧ s.out.length < n ∧
            ∃ answer ∈ es.getLast?, answer.ends = true)) ∧
        (writenLoop.sending m (writen fd vptr n)).run ⟨writen fd vptr n, []⟩
          (es.filter fun answer => !answer.transient) = some s) ∧
      ∀ script : Nat → SysResult, {i | (script i).transient = true}.Finite →
        (writenLoop.sending m (writen fd vptr n)).Follows
          (fun s => ∃ ret, s.call = .returned ret) ⟨writen fd vptr n, []⟩ script →
        ∃ k s ret, (writenLoop.sending m (writen fd vptr n)).follow ⟨writen fd vptr n, []⟩ script
          k = some s ∧ s.call = .returned ret) := by
  constructor
  · intro hfd es s hrun
    rw [writen, if_pos hfd] at hrun
    cases es with
    | nil => exact (Option.some.inj hrun).symm
    | cons answer es => cases hrun
  · intro hfd
    have hmoves := writen_moves vptr n
    have hretries := writen_retries vptr n
    have hstands : WritenStands vptr n 0 (writen fd vptr n) := writen_stands hfd
    constructor
    · intro es s hrun
      obtain ⟨⟨hat, hret⟩, hout⟩ := hmoves.sent hstands hrun
      have hle : s.out.length ≤ n := by
        cases hc : s.call with
        | running l =>
          rw [hc] at hat
          have hleft := hat.2.2.1
          omega
        | returned ret =>
          rw [hc] at hat
          rcases hat with ⟨-, hput⟩ | ⟨-, hput⟩ <;> omega
      refine ⟨?_, ?_, ?_, hmoves.sending_filter hretries hstands hrun⟩
      · rw [hout]
        exact m.load_prefix vptr hle
      · intro l hc
        rw [hc] at hat
        obtain ⟨-, -, hleft, hptr⟩ := hat
        have hnleft : l.nleft = n - s.out.length := by omega
        exact ⟨hptr, by rw [m.drop_load vptr hle, hptr, hnleft]⟩
      · intro ret hc
        rw [Mem.eq_load_iff hout]
        rw [hc] at hat
        rcases hat with ⟨hn, hput⟩ | ⟨hneg, hput⟩
        · exact ⟨⟨fun _ => hput, fun _ => hn⟩, fun hne => absurd hn hne⟩
        · have hfailed : ret = -1 := (hret ret hc).resolve_left (by omega)
          refine ⟨⟨by omega, by omega⟩, fun hne => ⟨hfailed, hput, ?_⟩⟩
          refine (hmoves.sending_short hretries writen_full hstands hrun hc
            (Nat.ne_of_lt hput)).resolve_left fun hstart => hne ?_
          rw [writen, if_neg (by omega)] at hstart
          exact Writen.loop_ret hstart
    · intro script hfinite hfollows
      exact hmoves.returns hretries hstands (fun es t => IoLoop.calls_of_sending) hfinite hfollows

/-- One interruption, and then one byte at a time. -/
def interrupted : Nat → SysResult
  | 0 => .err .EINTR
  | _ + 1 => .ok 1

theorem finite_interrupted : {i | (interrupted i).transient = true}.Finite := by
  apply Set.Finite.subset (Set.finite_singleton 0)
  intro i hi
  cases i with
  | zero => rfl
  | succ i => cases hi

theorem interrupted_answers (i : Nat) :
    (∃ e, interrupted i = .err e) ∨ interrupted i = .ok 1 := by
  cases i with
  | zero => exact .inl ⟨.EINTR, rfl⟩
  | succ i => exact .inr rfl

theorem writen_exact_interrupted :
    (∃ k s ret, (writenLoop.sending (fun i => UInt8.ofNat (7 + i)) (writen 5 0 2)).follow
      ⟨writen 5 0 2, []⟩ interrupted k = some s ∧ s.call = .returned ret) ∧
    (writenLoop.sending (fun i => UInt8.ofNat (7 + i)) (writen 5 0 2)).run ⟨writen 5 0 2, []⟩
      [.ok 1, .ok 1] = some ⟨.returned 2, [7, 8]⟩ := by
  obtain ⟨hruns, hreturns⟩ := (writen_exact (fun i => UInt8.ofNat (7 + i)) 5 0 2).2 (by decide)
  have hfollows := (writen_moves 0 2).follows (m := fun i => UInt8.ofNat (7 + i))
    (writen_retries 0 2) (writen_stands (by decide : (0 : Int) ≤ 5)) interrupted_answers
  refine ⟨hreturns interrupted finite_interrupted hfollows, ?_⟩
  have hrun : (writenLoop.sending (fun i => UInt8.ofNat (7 + i)) (writen 5 0 2)).run
      ⟨writen 5 0 2, []⟩ [.err .EINTR, .ok 1, .ok 1] = some ⟨.returned 2, [7, 8]⟩ := rfl
  exact (hruns _ _ hrun).2.2.2

end ITrace
