import ITrace.Misc.SysCall

/-!
# System calls and the loops around them

The functions of `general/general.c` that wrap `read`, `write` and `kill`: `readn` and `writen`
start the call, `Readn.step` and `Writen.step` are one turn of the `while` loop. The bytes that
move belong to the state of whoever makes the call and are moved by it; the loops keep the counts.
-/

namespace ITrace

/-- `enum SystemStatus` (`general.h:52-56`). -/
inductive SystemStatus where
  | running
  | stop
  deriving DecidableEq, Repr

/-- The locals of `readn` (`general.c:20-44`). -/
structure Readn where
  fd : Int
  ptr : Nat
  n : Nat
  nleft : Nat
  deriving DecidableEq, Repr

/-- The head of the loop, `while (nleft > 0)`, and `return(n - nleft)` after it. -/
def Readn.loop (l : Readn) : Call Readn :=
  if 0 < l.nleft then .running l else .returned (l.n - l.nleft)

/-- `readn(fd, vptr, n)` up to its first `read`. -/
def readn (fd : Int) (vptr n : Nat) : Call Readn := Readn.loop ⟨fd, vptr, n, n⟩

/-- One turn of the loop of `readn`, from the answer of `read(fd, ptr, nleft)` on. -/
def Readn.step (l : Readn) : SysResult → Call Readn
  | .err e => if e.transient then l.loop else .returned (-1)
  | .ok 0 => .returned (l.n - l.nleft)
  | .ok (k + 1) => Readn.loop { l with nleft := l.nleft - (k + 1), ptr := l.ptr + (k + 1) }

/-- The locals of `writen` (`general.c:46-70`). -/
structure Writen where
  fd : Int
  ptr : Nat
  n : Nat
  nleft : Nat
  deriving DecidableEq, Repr

/-- The head of the loop, and `return(n)` after it. -/
def Writen.loop (l : Writen) : Call Writen :=
  if 0 < l.nleft then .running l else .returned l.n

/-- `writen(fd, vptr, n)` up to its first `write`; nothing is written to a negative descriptor. -/
def writen (fd : Int) (vptr n : Nat) : Call Writen :=
  if fd < 0 then .returned 0 else Writen.loop ⟨fd, vptr, n, n⟩

/-- One turn of the loop of `writen`, from the answer of `write(fd, ptr, nleft)` on. -/
def Writen.step (l : Writen) : SysResult → Call Writen
  | .err e => if e.transient then l.loop else .returned (-1)
  | .ok 0 => .returned (-1)
  | .ok (k + 1) => Writen.loop { l with nleft := l.nleft - (k + 1), ptr := l.ptr + (k + 1) }

/-- On an open descriptor `writen` makes its first `write`. -/
theorem writen_running {fd : Int} (hfd : 0 ≤ fd) (vptr : Nat) {n : Nat} (hn : 0 < n) :
    writen fd vptr n = .running ⟨fd, vptr, n, n⟩ := by
  rw [writen, if_neg (by omega), Writen.loop, if_pos hn]

theorem readn_running (fd : Int) (vptr : Nat) {n : Nat} (hn : 0 < n) :
    readn fd vptr n = .running ⟨fd, vptr, n, n⟩ := by
  rw [readn, Readn.loop, if_pos hn]

/-! ### What the loops count -/

/-- `readn(fd, vptr, n)` has got `got` bytes and stored them from `vptr` on. -/
def ReadnAt (vptr n got : Nat) : Call Readn → Prop
  | .running l => l.n = n ∧ 0 < l.nleft ∧ l.nleft + got = n ∧ l.ptr = vptr + got
  | .returned ret => (ret = got ∧ got ≤ n) ∨ (ret = -1 ∧ got < n)

/-- `writen(fd, vptr, n)` has put `put` of the bytes from `vptr` on. -/
def WritenAt (vptr n put : Nat) : Call Writen → Prop
  | .running l => l.n = n ∧ 0 < l.nleft ∧ l.nleft + put = n ∧ l.ptr = vptr + put
  | .returned ret => (ret = n ∧ put = n) ∨ (ret ≤ 0 ∧ put < n)

theorem readn_at (fd : Int) (vptr n : Nat) : ReadnAt vptr n 0 (readn fd vptr n) := by
  unfold readn Readn.loop
  split
  · exact ⟨rfl, by assumption, rfl, rfl⟩
  · exact .inl ⟨by simp, Nat.zero_le n⟩

/-- `read` stored `k` bytes more, or none at the end of the file. -/
theorem ReadnAt.step_ok {vptr n got k : Nat} {l : Readn} (h : ReadnAt vptr n got (.running l))
    (hk : k ≤ l.nleft) : ReadnAt vptr n (got + k) (l.step (.ok k)) := by
  obtain ⟨hn, hpos, hleft, hptr⟩ := h
  cases k with
  | zero => exact .inl ⟨by omega, by omega⟩
  | succ k =>
    simp only [Readn.step, Readn.loop]
    split
    · exact ⟨hn, by assumption, by simp only; omega, by simp only; omega⟩
    · exact .inl ⟨by omega, by omega⟩

theorem ReadnAt.step_err {vptr n got : Nat} {l : Readn} (h : ReadnAt vptr n got (.running l))
    (e : Errno) : ReadnAt vptr n got (l.step (.err e)) := by
  obtain ⟨hn, hpos, hleft, hptr⟩ := h
  simp only [Readn.step, Readn.loop, hpos, if_true]
  split
  · exact ⟨hn, hpos, hleft, hptr⟩
  · exact .inr ⟨rfl, by omega⟩

theorem writen_at (fd : Int) (vptr n : Nat) : WritenAt vptr n 0 (writen fd vptr n) := by
  unfold writen Writen.loop
  by_cases hn : 0 < n
  · by_cases hfd : fd < 0
    · rw [if_pos hfd]
      exact .inr ⟨Int.le_refl 0, hn⟩
    · rw [if_neg hfd, if_pos hn]
      exact ⟨rfl, hn, rfl, rfl⟩
  · have hzero : n = 0 := Nat.eq_zero_of_not_pos hn
    subst hzero
    by_cases hfd : fd < 0
    · rw [if_pos hfd]
      exact .inl ⟨rfl, rfl⟩
    · rw [if_neg hfd]
      exact .inl ⟨rfl, rfl⟩

/-- `write` accepted `k` bytes more; none at all is a failure. -/
theorem WritenAt.step_ok {vptr n put k : Nat} {l : Writen}
    (h : WritenAt vptr n put (.running l)) (hk : k ≤ l.nleft) :
    WritenAt vptr n (put + k) (l.step (.ok k)) := by
  obtain ⟨hn, hpos, hleft, hptr⟩ := h
  cases k with
  | zero => exact .inr ⟨by decide, by omega⟩
  | succ k =>
    simp only [Writen.step, Writen.loop]
    split
    · exact ⟨hn, by assumption, by simp only; omega, by simp only; omega⟩
    · exact .inl ⟨by omega, by omega⟩

theorem WritenAt.step_err {vptr n put : Nat} {l : Writen}
    (h : WritenAt vptr n put (.running l)) (e : Errno) :
    WritenAt vptr n put (l.step (.err e)) := by
  obtain ⟨hn, hpos, hleft, hptr⟩ := h
  simp only [Writen.step, Writen.loop, hpos, if_true]
  split
  · exact ⟨hn, hpos, hleft, hptr⟩
  · exact .inr ⟨by decide, by omega⟩

/-! ### What one call leaves -/

/-- After an answer `readn` calls again with what it had, or returns, or has less left. -/
theorem Readn.step_cases {l : Readn} (hpos : 0 < l.nleft) (answer : SysResult) :
    (∃ e, answer = .err e ∧ e.transient = true ∧ l.step answer = .running l) ∨
    (∃ ret, l.step answer = .returned ret) ∨
    ∃ k l', answer = .ok (k + 1) ∧ l.step answer = .running l' ∧ 0 < l'.nleft ∧
      l'.nleft + (k + 1) = l.nleft ∧ l'.ptr = l.ptr + (k + 1) := by
  cases answer with
  | err e =>
    cases htransient : e.transient with
    | true => exact .inl ⟨e, rfl, htransient, by simp [Readn.step, Readn.loop, htransient, hpos]⟩
    | false => exact .inr (.inl ⟨-1, by simp [Readn.step, htransient]⟩)
  | ok k =>
    cases k with
    | zero => exact .inr (.inl ⟨_, rfl⟩)
    | succ k =>
      simp only [Readn.step, Readn.loop]
      split
      · rename_i hmore
        exact .inr (.inr ⟨k, _, rfl, rfl, hmore, by simp only at hmore ⊢; omega, rfl⟩)
      · exact .inr (.inl ⟨_, rfl⟩)

theorem Writen.step_transient {l : Writen} {e : Errno} (hpos : 0 < l.nleft)
    (he : e.transient = true) : l.step (.err e) = .running l := by
  rw [Writen.step, if_pos he, Writen.loop, if_pos hpos]

theorem Writen.step_lasting {l : Writen} {e : Errno} (he : e.transient = false) :
    l.step (.err e) = .returned (-1) := by
  rw [Writen.step, if_neg (by simp [he])]

theorem Writen.step_cases {l : Writen} (hpos : 0 < l.nleft) (answer : SysResult) :
    (∃ e, answer = .err e ∧ e.transient = true ∧ l.step answer = .running l) ∨
    (∃ ret, l.step answer = .returned ret) ∨
    ∃ k l', answer = .ok (k + 1) ∧ l.step answer = .running l' ∧ 0 < l'.nleft ∧
      l'.nleft + (k + 1) = l.nleft ∧ l'.ptr = l.ptr + (k + 1) := by
  cases answer with
  | err e =>
    cases htransient : e.transient with
    | true => exact .inl ⟨e, rfl, htransient, Writen.step_transient hpos htransient⟩
    | false => exact .inr (.inl ⟨-1, Writen.step_lasting htransient⟩)
  | ok k =>
    cases k with
    | zero => exact .inr (.inl ⟨-1, rfl⟩)
    | succ k =>
      simp only [Writen.step, Writen.loop]
      split
      · rename_i hmore
        exact .inr (.inr ⟨k, _, rfl, rfl, hmore, by simp only at hmore ⊢; omega, rfl⟩)
      · exact .inr (.inl ⟨_, rfl⟩)

/-- `is_process_alive` (`general.c:3-18`), given what `kill(target_pid, 0)` answered. -/
def isProcessAlive : SysResult → Int
  | .ok _ => 1
  | .err .ESRCH => 0
  | .err _ => 1

end ITrace
