import ITrace.General.Proofs.ExactReads
import ITrace.General.Proofs.ExactWrites
import ITrace.Misc.Channel

/-!
# From `writen` to `readn`

What `writen` puts into a pipe or a connection at the one end and `readn` takes out at the other.
Neither knows in which pieces the other's bytes go in or come out.
-/

namespace ITrace

open IoLoop

/-- The answer moves a byte, or it says that the call may be made again. -/
def SysResult.Undisturbed (answer : SysResult) : Prop := answer.transient = true ∨ 0 < answer.moved

/-- No call failed for good, and none moved nothing. -/
def Undisturbed (es : List LinkEvent) : Prop :=
  ∀ e ∈ es, match e with
    | .send answer | .receive answer => answer.Undisturbed

/-- The call of `writen` for `n` bytes at `vptr`, the call of `readn` for `n` bytes at `vptr'`, and
a channel for `cap` bytes between them. -/
def writenReadn (cap : Nat) (src mem : Mem UInt8) (wfd rfd : Int) (vptr vptr' n : Nat) :
    Machine (Linked Writen Readn UInt8) LinkEvent :=
  writenLoop.link readnLoop cap src mem (writen wfd vptr n) (readn rfd vptr' n)

variable {vptr vptr' n : Nat} {src mem : Mem UInt8} {wfd rfd : Int} {es : List LinkEvent}

theorem writen_persists (vptr n : Nat) :
    writenLoop.Persists n (WritenStands vptr n) SysResult.Undisturbed := by
  intro put l answer hat hp hk
  obtain ⟨⟨hn, hpos, hleft, hptr⟩, -⟩ := id hat
  rcases hp with htransient | hmoved
  · cases answer with
    | ok k => cases htransient
    | err e => exact .inl ⟨l, (writen_retries vptr n).transient hat htransient⟩
  · cases answer with
    | err e => cases hmoved
    | ok k =>
      obtain ⟨k, rfl⟩ := Nat.exists_eq_add_one_of_ne_zero (Nat.ne_of_gt hmoved)
      by_cases hall : 0 < l.nleft - (k + 1)
      · exact .inl ⟨_, by simp only [writenLoop, Writen.step, Writen.loop, hall, if_true]; rfl⟩
      · have hk : k + 1 ≤ l.nleft := hk
        refine .inr ?_
        show put + (k + 1) = n
        omega

theorem readn_persists (vptr n : Nat) :
    readnLoop.Persists n (ReadnAt vptr n) SysResult.Undisturbed := by
  intro got l answer hat hp hk
  obtain ⟨hn, hpos, hleft, hptr⟩ := id hat
  rcases hp with htransient | hmoved
  · cases answer with
    | ok k => cases htransient
    | err e => exact .inl ⟨l, (readn_retries vptr n).transient hat htransient⟩
  · cases answer with
    | err e => cases hmoved
    | ok k =>
      obtain ⟨k, rfl⟩ := Nat.exists_eq_add_one_of_ne_zero (Nat.ne_of_gt hmoved)
      by_cases hall : 0 < l.nleft - (k + 1)
      · exact .inl ⟨_, by simp only [readnLoop, Readn.step, Readn.loop, hall, if_true]; rfl⟩
      · have hk : k + 1 ≤ l.nleft := hk
        refine .inr ?_
        show got + (k + 1) = n
        omega

theorem WritenStands.ret_iff {put : Nat} {ret : Int} (h : WritenStands vptr n put (.returned ret)) :
    (ret = n ↔ put = n) ∧ (ret ≠ n → ret = -1) := by
  obtain ⟨hat, hret⟩ := h
  have hends := hret ret rfl
  rcases hat with ⟨rfl, rfl⟩ | ⟨hneg, hlt⟩
  · exact ⟨by simp, fun hne => absurd rfl hne⟩
  · exact ⟨by omega, fun hne => hends.resolve_left hne⟩

theorem readn_start_zero {ret : Int} (h : readn rfd vptr' n = .returned ret) : n = 0 := by
  rcases Nat.eq_zero_or_pos n with hzero | hpos
  · exact hzero
  · rw [readn_running rfd vptr' hpos] at h
    cases h

theorem writen_start_zero (hfd : 0 ≤ wfd) {ret : Int} (h : writen wfd vptr n = .returned ret) :
    n = 0 := by
  rcases Nat.eq_zero_or_pos n with hzero | hpos
  · exact hzero
  · rw [writen_running hfd vptr hpos] at h
    cases h

theorem Undisturbed.toSender (h : Undisturbed es) :
    ∀ answer ∈ es.filterMap LinkEvent.toSender, answer.Undisturbed := by
  intro answer hmem
  obtain ⟨e, he, hanswer⟩ := List.mem_filterMap.mp hmem
  have hgood := h e he
  cases e with
  | send _ =>
    cases hanswer
    exact hgood
  | receive _ => cases hanswer

theorem Undisturbed.toReceiver (h : Undisturbed es) :
    ∀ answer ∈ es.filterMap LinkEvent.toReceiver, answer.Undisturbed := by
  intro answer hmem
  obtain ⟨e, he, hanswer⟩ := List.mem_filterMap.mp hmem
  have hgood := h e he
  cases e with
  | send _ => cases hanswer
  | receive _ =>
    cases hanswer
    exact hgood

/-- The events that move something are at most as many as the bytes they move. -/
theorem countP_moved_le (es : List LinkEvent) :
    es.countP (fun e => 0 < e.moved) ≤ (es.map LinkEvent.moved).sum := by
  induction es with
  | nil => exact Nat.le_refl 0
  | cons e es ih =>
    rw [List.countP_cons, List.map_cons, List.sum_cons]
    split
    · rename_i hmoved
      have hpos : 0 < e.moved := by simpa using hmoved
      omega
    · omega

/-- For every buffer and every channel, in every run: the channel holds what `writen` has put and
`readn` has not got, and the reader's buffer has the bytes it got and no other cell of its memory
has changed; if `writen` returns `n` all bytes are in, and if `readn` returns `ret` it has the first
`ret` bytes of the writer. As long as no call fails for good and none moves nothing, at most `2 * n`
calls move bytes, and either both have returned `n`, with the reader's buffer equal to the
writer's and the channel empty, or one more byte can be moved. -/
theorem writenReadn_delivers (cap : Nat) (hcap : 0 < cap) (src mem : Mem UInt8) (wfd rfd : Int)
    (hfd : 0 ≤ wfd) (vptr vptr' n : Nat) (es : List LinkEvent) (s : Linked Writen Readn UInt8)
    (hrun : (writenReadn cap src mem wfd rfd vptr vptr' n).run
      ⟨writen wfd vptr n, readn rfd vptr' n, [], mem⟩ es = some s) :
    (∃ put got, got ≤ put ∧ put ≤ n ∧ s.queue = src.load (vptr + got) (put - got) ∧
      s.mem = mem.store vptr' (src.load vptr got) ∧
      (∀ ret, s.sender = .returned ret → (ret = n ↔ put = n) ∧ (ret ≠ n → ret = -1)) ∧
      ∀ ret, s.receiver = .returned ret → ret = got ∨ ret = -1) ∧
    (Undisturbed es →
      es.countP (fun e => 0 < e.moved) ≤ 2 * n ∧
      ((s.sender = .returned n ∧ s.receiver = .returned n ∧ s.queue = [] ∧
          s.mem.load vptr' n = src.load vptr n) ∨
        ∃ e t, (writenReadn cap src mem wfd rfd vptr vptr' n).step s e = some t ∧
          e.moved = 1)) := by
  have hout := writen_moves vptr n
  have hinto := readn_moves vptr' n
  have hstands : WritenStands vptr n 0 (writen wfd vptr n) := writen_stands hfd
  have hat := readn_at rfd vptr' n
  obtain ⟨put, got, hjoined, hsum⟩ := Joined.run hout hinto hstands hat hrun
  have hput := hjoined.put_le
  have hgot := hjoined.got_le
  refine ⟨⟨put, got, hgot, hput, hjoined.queue, hjoined.mem, fun ret hret => ?_,
    fun ret hret => ?_⟩, fun hgood => ⟨?_, ?_⟩⟩
  · have hsender := hjoined.sender
    rw [hret] at hsender
    exact hsender.ret_iff
  · have hreceiver := hjoined.receiver
    rw [hret] at hreceiver
    exact hreceiver.imp And.left And.left
  · have hcount := countP_moved_le es
    omega
  · -- a call that has returned has moved all
    have hsent : ∀ ret, s.sender = .returned ret → ret = n ∧ put = n := by
      intro ret hret
      obtain ⟨moved, hmoved, hall⟩ := hout.persists (writen_persists vptr n) hstands
        (fun ret => writen_start_zero hfd) hgood.toSender (calls_sender hrun)
      have hsender := hjoined.sender
      rw [hret] at hmoved hsender
      have hn := hmoved.ret_iff.1.mpr (hall ret hret)
      exact ⟨hn, hsender.ret_iff.1.mp hn⟩
    have hreceived : ∀ ret, s.receiver = .returned ret → ret = n ∧ got = n := by
      intro ret hret
      obtain ⟨moved, hmoved, hall⟩ := hinto.persists (readn_persists vptr' n) hat
        (fun ret => readn_start_zero) hgood.toReceiver (calls_receiver hrun)
      have hreceiver := hjoined.receiver
      rw [hall ret hret] at hmoved
      rw [hret] at hmoved hreceiver
      rcases hmoved with ⟨hn, -⟩ | ⟨-, hlt⟩
      · rcases hreceiver with ⟨hg, -⟩ | ⟨hneg, -⟩
        · exact ⟨hn, by omega⟩
        · omega
      · omega
    rcases hjoined.progress hout hinto hcap (fun h => h.1.2.1) (fun h => h.2.1)
        (fun ret hret => (hsent ret hret).2) (fun ret hret => (hreceived ret hret).2) with
      ⟨ret, ret', hs, hr, hnil⟩ | hmove
    · obtain ⟨rfl, -⟩ := hsent ret hs
      obtain ⟨rfl, hall⟩ := hreceived ret' hr
      refine .inl ⟨hs, hr, hnil, ?_⟩
      have hload := Mem.load_store_same mem vptr' (src.load vptr got)
      rw [Mem.length_load, ← hjoined.mem, hall] at hload
      exact hload
    · exact .inr hmove

/-- Three bytes through a channel for two. -/
def threeThroughTwo : List LinkEvent :=
  [.send (.ok 2), .receive (.ok 1), .receive (.err .EINTR), .send (.ok 1), .receive (.ok 2)]

theorem writenReadn_delivers_threeThroughTwo : ∃ s,
    (writenReadn 2 (fun i => UInt8.ofNat (7 + i)) (fun _ => 0) 4 5 0 0 3).run
      ⟨writen 4 0 3, readn 5 0 3, [], fun _ => 0⟩ threeThroughTwo = some s ∧
    s.receiver = .returned 3 ∧ s.mem.load 0 3 = [7, 8, 9] := by
  have hrun : ((writenReadn 2 (fun i => UInt8.ofNat (7 + i)) (fun _ => 0) 4 5 0 0 3).run
      ⟨writen 4 0 3, readn 5 0 3, [], fun _ => 0⟩ threeThroughTwo).map (fun s => s.receiver) =
        some (.returned 3) := by decide +kernel
  obtain ⟨s, hs, hret⟩ := Option.map_eq_some_iff.mp hrun
  obtain ⟨⟨put, got, -, -, -, hmem, -, hgot⟩, -⟩ :=
    writenReadn_delivers 2 (by decide) _ _ 4 5 (by decide) 0 0 3 _ s hs
  obtain hn | hneg := hgot 3 hret
  · obtain rfl : got = 3 := by omega
    refine ⟨s, hs, hret, ?_⟩
    rw [hmem]
    rfl
  · cases hneg

end ITrace
