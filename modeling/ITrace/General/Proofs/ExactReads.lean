import ITrace.General.Syscall
import ITrace.Misc.Transfer

/-!
# `readn` reads exactly

`readn` as a loop that transfers a buffer. Whatever `read` answers, the buffer gets the next bytes
of the stream and no other memory is touched; which bytes these are does not depend on the pieces
they come in, so that a sequence of calls returns the same for every fragmentation of a stream.
-/

namespace ITrace

/-- The loop of `readn`. -/
def readnLoop : IoLoop Readn := ⟨Readn.ptr, Readn.nleft, Readn.step⟩

/-- What the answers so far say about `readn` of `n` bytes: it runs as long as no error but a
transient one came, it returns -1 for such an error, and otherwise `n`, or less at the end of the
file. -/
def ReadnSaid (n : Nat) (es : List SysResult) : Call Readn → Prop
  | .running l => l.n = n ∧ l.nleft ≤ n ∧ ∀ e, .err e ∈ es → e.transient = true
  | .returned ret =>
      (ret = -1 ↔ ∃ e, e.transient = false ∧ .err e ∈ es) ∧
      (ret ≠ -1 → ret = n ∨ es.getLast? = some (.ok 0))

/-- What `read` may answer on a stream that ends with `fin`, the end of the file or an error: some
bytes, a transient error, or `fin` once no byte is left. -/
def FromStream (fin : SysResult) (s : IoLoop.Receiving Readn UInt8) (answer : SysResult) : Prop :=
  answer.transient = true ∨ (∃ k, answer = .ok (k + 1)) ∨ (answer = fin ∧ s.incoming = [])

/-- The result of `readn` of `n` bytes on a stream of `avail` bytes that ends with `fin`. -/
def readnRet (fin : SysResult) (n avail : Nat) : Int :=
  if n ≤ avail then n
  else match fin with
    | .ok _ => avail
    | .err _ => -1

/-- Calls of `readn` one after the other on a stream that ends with `fin`: the addresses and sizes
they are given, what they return, and the memory and the stream they leave. -/
inductive Readns (fd : Int) (fin : SysResult) : Mem UInt8 → List UInt8 → List (Nat × Nat) →
    List Int → Mem UInt8 → List UInt8 → Prop where
  | nil (m : Mem UInt8) (stream : List UInt8) : Readns fd fin m stream [] [] m stream
  | cons {m m' m'' : Mem UInt8} {stream stream' stream'' : List UInt8} {vptr n : Nat} {ret : Int}
      {todo : List (Nat × Nat)} {rets : List Int} (es : List SysResult)
      (hrun : (readnLoop.receiving m stream (readn fd vptr n)).run ⟨readn fd vptr n, m, stream⟩ es =
        some ⟨.returned ret, m', stream'⟩)
      (hfrom : (readnLoop.receiving m stream (readn fd vptr n)).EachStep (FromStream fin)
        ⟨readn fd vptr n, m, stream⟩ es)
      (hrest : Readns fd fin m' stream' todo rets m'' stream'') :
      Readns fd fin m stream ((vptr, n) :: todo) (ret :: rets) m'' stream''

variable {fd : Int} {vptr n : Nat} {m : Mem UInt8} {stream : List UInt8} {es : List SysResult}

/-! ### The loop -/

theorem Readn.loop_ret {l : Readn} {ret : Int} (h : l.loop = .returned ret) : ret = l.n := by
  unfold Readn.loop at h
  split at h
  · cases h
  · have hret := (Call.returned.inj h).symm
    omega

theorem Readn.loop_running {l l' : Readn} (h : l.loop = .running l') : l' = l := by
  unfold Readn.loop at h
  split at h
  · exact (Call.running.inj h).symm
  · cases h

theorem readn_moves (vptr n : Nat) : readnLoop.Moves Readn.nleft vptr n (ReadnAt vptr n) := by
  constructor
  · intro got l h
    exact h.2.2.2
  · intro got l h
    exact Nat.le_refl l.nleft
  · intro got l h
    exact h.2.2.1
  · intro got l k h hk
    exact h.step_ok hk
  · intro got l h e
    exact h.step_err e

theorem readn_retries (vptr n : Nat) : readnLoop.Retries (ReadnAt vptr n) := by
  constructor
  · intro got l h
    exact h.2.1
  · intro got l e h he
    show l.step (.err e) = .running l
    rw [Readn.step, if_pos he, Readn.loop, if_pos h.2.1]
  · intro got l e h he
    refine ⟨-1, ?_⟩
    show l.step (.err e) = .returned (-1)
    rw [Readn.step, if_neg (by simp [he])]
  · intro got l h
    exact ⟨l.n - l.nleft, rfl⟩

/-! ### What the answers say -/

theorem readnSaid_readn (fd : Int) (vptr n : Nat) : ReadnSaid n [] (readn fd vptr n) := by
  unfold readn Readn.loop
  split
  · exact ⟨rfl, Nat.le_refl n, by simp⟩
  · rename_i hzero
    simp only at hzero
    exact ⟨⟨by simp only; omega, by simp⟩, fun _ => .inl (by simp only; omega)⟩

theorem ReadnSaid.step_ok {l : Readn} (h : ReadnSaid n es (.running l)) (k : Nat) :
    ReadnSaid n (es ++ [.ok k]) (l.step (.ok k)) := by
  obtain ⟨hn, hle, herr⟩ := h
  have hlasting : ¬ ∃ e, e.transient = false ∧ .err e ∈ es ++ [.ok k] := by
    rintro ⟨e, he, hmem⟩
    have hmem : SysResult.err e ∈ es := by simpa using hmem
    rw [herr e hmem] at he
    cases he
  have hreturned : ∀ ret : Int, 0 ≤ ret → (ret = n ∨ k = 0) →
      ReadnSaid n (es ++ [.ok k]) (.returned ret) := by
    intro ret hpos hret
    refine ⟨⟨by omega, fun hex => absurd hex hlasting⟩, fun _ => ?_⟩
    rcases hret with hret | rfl
    · exact .inl hret
    · exact .inr (by simp)
  cases k with
  | zero => exact hreturned _ (by omega) (.inr rfl)
  | succ k =>
    cases hc : l.step (.ok (k + 1)) with
    | returned ret =>
      rw [Readn.step] at hc
      have hret := Readn.loop_ret hc
      simp only [hn] at hret
      exact hreturned ret (by omega) (.inl hret)
    | running l' =>
      rw [Readn.step] at hc
      have hl := Readn.loop_running hc
      subst hl
      refine ⟨hn, by simp only; omega, fun e hmem => herr e (by simpa using hmem)⟩

theorem ReadnSaid.step_err {l : Readn} (h : ReadnSaid n es (.running l)) (hpos : 0 < l.nleft)
    (e : Errno) : ReadnSaid n (es ++ [.err e]) (l.step (.err e)) := by
  obtain ⟨hn, hle, herr⟩ := h
  rw [Readn.step]
  cases he : e.transient with
  | true =>
    rw [if_pos rfl, Readn.loop, if_pos hpos]
    refine ⟨hn, hle, fun e' hmem => ?_⟩
    rcases List.mem_append.mp hmem with hmem | hmem
    · exact herr e' hmem
    · rw [SysResult.err.inj (List.mem_singleton.mp hmem), he]
  | false =>
    rw [if_neg (by simp)]
    exact ⟨⟨fun _ => ⟨e, he, by simp⟩, fun _ => rfl⟩, fun hne => absurd rfl hne⟩

theorem run_readnSaid {c : Call Readn}
    (hrun : (readnLoop.calls (readn fd vptr n)).run (readn fd vptr n) es = some c) :
    ReadnSaid n es c := by
  have hstep : ∀ (es : List SysResult) (c : Call Readn) (answer : SysResult) (c' : Call Readn),
      ReadnSaid n es c ∧ (∃ got, ReadnAt vptr n got c) →
      (readnLoop.calls (readn fd vptr n)).step c answer = some c' →
      ReadnSaid n (es ++ [answer]) c' ∧ ∃ got, ReadnAt vptr n got c' := by
    rintro es c answer c' ⟨hsaid, got, hat⟩ he
    obtain ⟨l, rfl, rfl, hk⟩ := IoLoop.calls_cases he
    cases answer with
    | ok k => exact ⟨hsaid.step_ok k, got + k, hat.step_ok hk⟩
    | err e => exact ⟨hsaid.step_err hat.2.1 e, got, hat.step_err e⟩
  exact (Machine.run_history (I := fun es c => ReadnSaid n es c ∧ ∃ got, ReadnAt vptr n got c)
    hstep ⟨readnSaid_readn fd vptr n, 0, readn_at fd vptr n⟩ hrun).1

/-! ### The same stream in other pieces -/

/-- Where a call of `readn` on a stream stands, and once it has returned, with what. -/
def ReadnFrom (fin : SysResult) (vptr n : Nat) (m : Mem UInt8) (stream : List UInt8)
    (s : IoLoop.Receiving Readn UInt8) : Prop :=
  ∃ got, ReadnAt vptr n got s.call ∧ got ≤ stream.length ∧
    s.mem = m.store vptr (stream.take got) ∧ s.incoming = stream.drop got ∧
    ∀ ret, s.call = .returned ret → got = min n stream.length ∧
      ret = readnRet fin n stream.length

theorem readnRet_of_le {fin : SysResult} {avail : Nat} (h : n ≤ avail) :
    readnRet fin n avail = n := if_pos h

/-- At the end of the stream `readn` returns what it got, or -1. -/
theorem readnRet_of_lt {avail : Nat} (h : avail < n) :
    readnRet (.ok 0) n avail = avail ∧ ∀ e, readnRet (.err e) n avail = -1 :=
  ⟨if_neg (Nat.not_le.mpr h), fun _ => if_neg (Nat.not_le.mpr h)⟩

theorem readnFrom_readn (fin : SysResult) (fd : Int) :
    ReadnFrom fin vptr n m stream ⟨readn fd vptr n, m, stream⟩ := by
  refine ⟨0, readn_at fd vptr n, Nat.zero_le _, by simp, rfl, fun ret hret => ?_⟩
  have hn : n = 0 := by
    simp only [readn, Readn.loop] at hret
    split at hret
    · cases hret
    · omega
  have hloop := Readn.loop_ret hret
  simp only at hloop
  subst hn
  exact ⟨(Nat.zero_min _).symm, by simp [readnRet, hloop]⟩

theorem readnFrom_step {fin : SysResult} {s s' : IoLoop.Receiving Readn UInt8} {answer : SysResult}
    (h : ReadnFrom fin vptr n m stream s) (hfrom : FromStream fin s answer)
    (he : (readnLoop.receiving m stream (readn fd vptr n)).step s answer = some s') :
    ReadnFrom fin vptr n m stream s' := by
  obtain ⟨got, hat, hgot, hmem, hin, -⟩ := h
  have hlast : s.incoming = [] → stream.length ≤ got := by
    intro hnil
    rw [hnil] at hin
    exact List.drop_eq_nil_iff.mp hin.symm
  obtain ⟨l, hc, ⟨k, rfl, hk, havail, rfl⟩ | ⟨e, rfl, rfl⟩⟩ := IoLoop.receiving_cases he
  · rw [hc] at hat
    have hnext : ReadnAt vptr n (got + k) (readnLoop.step l (.ok k)) := hat.step_ok hk
    have hlen : (stream.take got).length = got := List.length_take_of_le hgot
    obtain ⟨hn, hpos, hleft, hptr⟩ := hat
    have hptr : readnLoop.ptr l = vptr + got := hptr
    rw [hin, List.length_drop] at havail
    refine ⟨got + k, hnext, by omega, ?_, by rw [hin, List.drop_drop], fun ret hret => ?_⟩
    · rw [hmem, hin, hptr, List.take_add, ← Mem.store_store, hlen]
    · rcases k with _ | k
      -- the end of the file
      · obtain ⟨hend, hnil⟩ : SysResult.ok 0 = fin ∧ s.incoming = [] := by
          rcases hfrom with htransient | ⟨k, hk⟩ | hend
          · cases htransient
          · cases hk
          · exact hend
        have hle := hlast hnil
        have hret : ret = l.n - l.nleft := (Call.returned.inj hret).symm
        rw [← hend, (readnRet_of_lt (by omega)).1]
        exact ⟨by omega, by omega⟩
      · have hret : l.step (.ok (k + 1)) = .returned ret := hret
        have hnext : ReadnAt vptr n (got + (k + 1)) (l.step (.ok (k + 1))) := hnext
        rw [hret, ReadnAt] at hnext
        rw [Readn.step] at hret
        have hall := Readn.loop_ret hret
        simp only at hall
        rw [readnRet_of_le (by omega)]
        exact ⟨by omega, by omega⟩
  · rw [hc] at hat
    refine ⟨got, hat.step_err e, hgot, hmem, hin, fun ret hret => ?_⟩
    obtain ⟨hn, hpos, hleft, hptr⟩ := hat
    have hret : l.step (.err e) = .returned ret := hret
    rw [Readn.step] at hret
    cases he : e.transient with
    | true =>
      rw [if_pos he, Readn.loop, if_pos hpos] at hret
      cases hret
    | false =>
      rw [if_neg (by simp [he])] at hret
      obtain ⟨hend, hnil⟩ : SysResult.err e = fin ∧ s.incoming = [] := by
        rcases hfrom with htransient | ⟨k, hk⟩ | hend
        · rw [SysResult.transient, he] at htransient
          cases htransient
        · cases hk
        · exact hend
      have hle := hlast hnil
      rw [← hend, (readnRet_of_lt (by omega)).2]
      exact ⟨by omega, (Call.returned.inj hret).symm⟩

/-- What a call of `readn` returns and leaves is a function of the stream. -/
theorem readn_fromStream {fin : SysResult} {ret : Int} {m' : Mem UInt8} {stream' : List UInt8}
    (hrun : (readnLoop.receiving m stream (readn fd vptr n)).run ⟨readn fd vptr n, m, stream⟩ es =
      some ⟨.returned ret, m', stream'⟩)
    (hfrom : (readnLoop.receiving m stream (readn fd vptr n)).EachStep (FromStream fin)
      ⟨readn fd vptr n, m, stream⟩ es) :
    ret = readnRet fin n stream.length ∧ m' = m.store vptr (stream.take n) ∧
      stream' = stream.drop n := by
  obtain ⟨got, -, -, hmem, hin, hret⟩ := Machine.run_invariant_of
    (fun s answer s' hs hC he => readnFrom_step hs hC he) hfrom (readnFrom_readn fin fd) hrun
  obtain ⟨hgot, hret⟩ := hret ret rfl
  simp only at hmem hin
  refine ⟨hret, ?_, ?_⟩
  · rw [hmem, hgot, ← List.take_take, List.take_length]
  · rw [hin, hgot]
    rcases Nat.le_total n stream.length with hle | hle
    · rw [Nat.min_eq_left hle]
    · rw [Nat.min_eq_right hle, List.drop_length, List.drop_eq_nil_iff.mpr hle]

/-- Nor does the result of a sequence of calls depend on the pieces. -/
theorem Readns.unique {fin : SysResult} {m₁ m₂ : Mem UInt8}
    {stream₁ stream₂ : List UInt8} {todo : List (Nat × Nat)} {rets₁ rets₂ : List Int}
    (h₁ : Readns fd fin m stream todo rets₁ m₁ stream₁)
    (h₂ : Readns fd fin m stream todo rets₂ m₂ stream₂) :
    rets₁ = rets₂ ∧ m₁ = m₂ ∧ stream₁ = stream₂ := by
  induction h₁ generalizing rets₂ m₂ stream₂ with
  | nil m stream =>
    cases h₂
    exact ⟨rfl, rfl, rfl⟩
  | cons es hrun hfrom hrest ih =>
    cases h₂ with
    | cons es' hrun' hfrom' hrest' =>
      obtain ⟨rfl, rfl, rfl⟩ := readn_fromStream hrun hfrom
      obtain ⟨rfl, rfl, rfl⟩ := readn_fromStream hrun' hfrom'
      obtain ⟨rfl, hmem, hstream⟩ := ih hrest'
      exact ⟨rfl, hmem, hstream⟩

/-- For every `n`, at every point of every run of `readn`: the buffer has the next bytes of the
stream, the stream is behind them, and no memory outside the buffer was or will be written. Once
it has returned, the result is the number of these bytes, `n` unless the end of the file came, or
-1, exactly if an error came that is not transient. The transient errors make no difference, with
finitely many of them it returns, and calls one after the other give the same for all ways to
split one stream. -/
theorem readn_exact (m : Mem UInt8) (stream : List UInt8) (fd : Int) (vptr n : Nat) :
    (∀ es s, (readnLoop.receiving m stream (readn fd vptr n)).run
        ⟨readn fd vptr n, m, stream⟩ es = some s →
      ∃ got, got ≤ n ∧ s.mem = m.store vptr (stream.take got) ∧ s.incoming = stream.drop got ∧
        s.mem.load vptr got = stream.take got ∧
        (∀ a, a < vptr ∨ vptr + n ≤ a → s.mem a = m a) ∧
        (∀ l, s.call = .running l → l.ptr = vptr + got ∧ l.ptr + l.nleft = vptr + n) ∧
        (∀ ret, s.call = .returned ret →
          (0 ≤ ret → ret = got ∧ (got = n ∨ es.getLast? = some (.ok 0))) ∧
          (ret < 0 → ret = -1) ∧
          (ret = -1 ↔ ∃ e, e.transient = false ∧ .err e ∈ es)) ∧
        (readnLoop.receiving m stream (readn fd vptr n)).run ⟨readn fd vptr n, m, stream⟩
          (es.filter fun answer => !answer.transient) = some s) ∧
    (∀ script : Nat → SysResult, {i | (script i).transient = true}.Finite →
      (readnLoop.receiving m stream (readn fd vptr n)).Follows
        (fun s => ∃ ret, s.call = .returned ret) ⟨readn fd vptr n, m, stream⟩ script →
      ∃ k s ret, (readnLoop.receiving m stream (readn fd vptr n)).follow
        ⟨readn fd vptr n, m, stream⟩ script k = some s ∧ s.call = .returned ret) ∧
    (∀ fin todo rets₁ rets₂ m₁ m₂ stream₁ stream₂,
      Readns fd fin m stream todo rets₁ m₁ stream₁ →
      Readns fd fin m stream todo rets₂ m₂ stream₂ →
      rets₁ = rets₂ ∧ m₁ = m₂ ∧ stream₁ = stream₂) := by
  have hmoves := readn_moves vptr n
  have hretries := readn_retries vptr n
  have hat := readn_at fd vptr n
  refine ⟨?_, ?_, fun fin todo rets₁ rets₂ m₁ m₂ stream₁ stream₂ h₁ h₂ => h₁.unique h₂⟩
  · intro es s hrun
    obtain ⟨got, hs, hgot, hmem, hin⟩ := hmoves.received hat hrun
    have hsaid : ReadnSaid n es s.call := run_readnSaid (IoLoop.calls_of_receiving hrun)
    have hlen : (stream.take got).length = got := List.length_take_of_le hgot
    have hle : got ≤ n := by
      cases hc : s.call with
      | running l =>
        rw [hc] at hs
        have := hs.2.2.1
        omega
      | returned ret =>
        rw [hc] at hs
        rcases hs with ⟨-, hle⟩ | ⟨-, hlt⟩ <;> omega
    refine ⟨got, hle, hmem, hin, ?_, ?_, ?_, ?_, hmoves.receiving_filter hretries hat hrun⟩
    · have hload := Mem.load_store_same m vptr (stream.take got)
      rwa [hlen, ← hmem] at hload
    · rintro a (ha | ha)
      · rw [hmem, Mem.store_of_lt m _ ha]
      · rw [hmem, Mem.store_of_ge m _ (by omega)]
    · intro l hc
      rw [hc] at hs
      obtain ⟨-, -, hleft, hptr⟩ := hs
      exact ⟨hptr, by omega⟩
    · intro ret hc
      rw [hc] at hs hsaid
      obtain ⟨hlasting, hend⟩ := hsaid
      refine ⟨fun hpos => ?_, fun hneg => ?_, hlasting⟩
      · rcases hs with ⟨hret, -⟩ | ⟨hret, -⟩
        · refine ⟨hret, (hend (by omega)).imp_left fun hn => ?_⟩
          omega
        · omega
      · rcases hs with ⟨hret, -⟩ | ⟨hret, -⟩
        · omega
        · exact hret
  · intro script hfinite hfollows
    exact hmoves.returns hretries hat (fun es t => IoLoop.calls_of_receiving) hfinite hfollows

/-- Two of three bytes, that come one at a time and after an interruption. -/
theorem readn_exact_twoOfThree : ∃ s,
    (readnLoop.receiving (fun _ => (0 : UInt8)) [1, 2, 3] (readn 5 0 2)).run
      ⟨readn 5 0 2, fun _ => 0, [1, 2, 3]⟩ [.err .EINTR, .ok 1, .ok 1] = some s ∧
    s.call = .returned 2 ∧ s.mem.load 0 2 = [1, 2] ∧ s.incoming = [3] ∧
    (readnLoop.receiving (fun _ => (0 : UInt8)) [1, 2, 3] (readn 5 0 2)).run
      ⟨readn 5 0 2, fun _ => 0, [1, 2, 3]⟩ [.ok 1, .ok 1] = some s := by
  have hrun : ((readnLoop.receiving (fun _ => (0 : UInt8)) [1, 2, 3] (readn 5 0 2)).run
      ⟨readn 5 0 2, fun _ => 0, [1, 2, 3]⟩ [.err .EINTR, .ok 1, .ok 1]).map
        (fun s => (s.call, s.incoming)) = some (.returned 2, [3]) := by decide +kernel
  obtain ⟨s, hs, hret⟩ := Option.map_eq_some_iff.mp hrun
  obtain ⟨hret, hin⟩ := Prod.mk.inj hret
  obtain ⟨got, -, -, -, hload, -, -, hgot, hfilter⟩ :=
    (readn_exact (fun _ => (0 : UInt8)) [1, 2, 3] 5 0 2).1 _ s hs
  obtain rfl : got = 2 := Int.ofNat_inj.mp ((hgot 2 hret).1 (by decide)).1.symm
  exact ⟨s, hs, hret, hload, hin, hfilter⟩

/-- Two calls for two bytes each, and the three bytes come as two and one. -/
example : Readns 5 (.ok 0) (fun _ => 0) [1, 2, 3] [(0, 2), (2, 2)] [2, 1]
    ((Mem.store (fun _ => 0) 0 [1, 2]).store 2 [3]) [] := by
  apply Readns.cons [.ok 2] rfl
  · exact ⟨.inr (.inl ⟨1, rfl⟩), fun _ _ => trivial⟩
  apply Readns.cons [.ok 1, .ok 0]
  · exact congrArg (fun mem => some (IoLoop.Receiving.mk (.returned 1) mem [])) (Mem.store_nil _ _)
  · refine ⟨.inr (.inl ⟨0, rfl⟩), fun s' he => ⟨.inr (.inr ⟨rfl, ?_⟩), fun _ _ => trivial⟩⟩
    cases he
    rfl
  exact .nil _ _

end ITrace
