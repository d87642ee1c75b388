import ITrace.Misc.Machine
import ITrace.Misc.Mem
import ITrace.Misc.Script
import ITrace.Misc.SysCall

/-!
# Loops that transfer a buffer

Functions that call `read` or `write` until a buffer is through have one shape: a loop that knows
where the next call starts and how much it asks for, and that goes on or returns with each answer.
`IoLoop` is that shape. It runs alone (`calls`), or over a memory whose cells it gives away
(`sending`) or fills from a stream (`receiving`).

What makes such a loop exact is said once, in `Moves`: there is a count of the cells it has moved,
every call starts behind them and asks for some of the rest, and an answer adds to the count what
it says. A loop with that count sends a prefix of its buffer and fills a prefix of it, whatever
the answers are.
-/

namespace ITrace

/-- The cells an answer says were moved. -/
def SysResult.moved : SysResult → Nat
  | .ok k => k
  | .err _ => 0

/-- The call is not made again: it moved nothing, or it failed for good. -/
def SysResult.ends : SysResult → Bool
  | .ok k => k = 0
  | .err e => !e.transient

/-- A loop around one system call: what the next call is given, and what it makes of the
answer. -/
structure IoLoop (L : Type*) where
  ptr : L → Nat
  count : L → Nat
  step : L → SysResult → Call L

namespace IoLoop

variable {L α : Type*}

/-- A call that gives cells away: how far it is, and what was accepted. -/
structure Sending (L α : Type*) where
  call : Call L
  out : List α

/-- A call that fills a buffer: how far it is, the memory, and what is left of the stream. -/
structure Receiving (L α : Type*) where
  call : Call L
  mem : Mem α
  incoming : List α

/-- The loop alone: an answer never counts more than was asked for. -/
def calls (lp : IoLoop L) (start : Call L) : Machine (Call L) SysResult where
  init c := c = start
  step c answer :=
    match c, answer with
    | .running l, .ok k => if k ≤ lp.count l then some (lp.step l (.ok k)) else none
    | .running l, .err e => some (lp.step l (.err e))
    | .returned _, _ => none

/-- The loop as it sends cells of `m`. -/
def sending (lp : IoLoop L) (m : Mem α) (start : Call L) : Machine (Sending L α) SysResult where
  init s := s = ⟨start, []⟩
  step s answer :=
    match s.call, answer with
    | .running l, .ok k =>
        if k ≤ lp.count l then some ⟨lp.step l (.ok k), s.out ++ m.load (lp.ptr l) k⟩ else none
    | .running l, .err e => some ⟨lp.step l (.err e), s.out⟩
    | .returned _, _ => none

/-- The loop as it stores what comes from `stream` into `m`. -/
def receiving (lp : IoLoop L) (m : Mem α) (stream : List α) (start : Call L) :
    Machine (Receiving L α) SysResult where
  init s := s = ⟨start, m, stream⟩
  step s answer :=
    match s.call, answer with
    | .running l, .ok k =>
        if k ≤ lp.count l ∧ k ≤ s.incoming.length then
          some ⟨lp.step l (.ok k), s.mem.store (lp.ptr l) (s.incoming.take k), s.incoming.drop k⟩
        else none
    | .running l, .err e => some ⟨lp.step l (.err e), s.mem, s.incoming⟩
    | .returned _, _ => none

/-- The loop moves the `n` cells from `base` on: `At moved` says where it stands once it has moved
`moved` of them, and `rest` how many are left then. -/
structure Moves (lp : IoLoop L) (rest : L → Nat) (base n : Nat) (At : Nat → Call L → Prop) :
    Prop where
  ptr : ∀ {moved l}, At moved (.running l) → lp.ptr l = base + moved
  count_le : ∀ {moved l}, At moved (.running l) → lp.count l ≤ rest l
  rest_eq : ∀ {moved l}, At moved (.running l) → rest l + moved = n
  step_ok : ∀ {moved l k}, At moved (.running l) → k ≤ lp.count l →
    At (moved + k) (lp.step l (.ok k))
  step_err : ∀ {moved l}, At moved (.running l) → ∀ e, At moved (lp.step l (.err e))

/-- The loop makes a call again that failed for the time being, and only such a call: it returns
when nothing was moved and when the call failed for good. -/
structure Retries (lp : IoLoop L) (At : Nat → Call L → Prop) : Prop where
  pos : ∀ {moved l}, At moved (.running l) → 0 < lp.count l
  transient : ∀ {moved l e}, At moved (.running l) → e.transient = true →
    lp.step l (.err e) = .running l
  lasting : ∀ {moved l e}, At moved (.running l) → e.transient = false →
    ∃ ret, lp.step l (.err e) = .returned ret
  nothing : ∀ {moved l}, At moved (.running l) → ∃ ret, lp.step l (.ok 0) = .returned ret

variable {lp : IoLoop L} {rest : L → Nat} {base n : Nat} {At : Nat → Call L → Prop} {start : Call L}
  {m : Mem α} {stream : List α} {es : List SysResult}

/-! ### Steps -/

theorem calls_cases {c d : Call L} {answer : SysResult}
    (h : (lp.calls start).step c answer = some d) :
    ∃ l, c = .running l ∧ d = lp.step l answer ∧ answer.moved ≤ lp.count l := by
  cases c with
  | returned ret => cases h
  | running l =>
    refine ⟨l, rfl, ?_⟩
    cases answer with
    | ok k =>
      obtain ⟨hk, h⟩ := Option.ite_none_right_eq_some.mp h
      exact ⟨(Option.some.inj h).symm, hk⟩
    | err e => exact ⟨(Option.some.inj h).symm, Nat.zero_le _⟩

theorem sending_cases {s s' : Sending L α} {answer : SysResult}
    (h : (lp.sending m start).step s answer = some s') :
    ∃ l, s.call = .running l ∧
      ((∃ k, answer = .ok k ∧ k ≤ lp.count l ∧
          s' = ⟨lp.step l (.ok k), s.out ++ m.load (lp.ptr l) k⟩) ∨
        ∃ e, answer = .err e ∧ s' = ⟨lp.step l (.err e), s.out⟩) := by
  cases hc : s.call with
  | returned ret => simp [sending, hc] at h
  | running l =>
    refine ⟨l, rfl, ?_⟩
    simp only [sending, hc] at h
    cases answer with
    | ok k =>
      obtain ⟨hk, h⟩ := Option.ite_none_right_eq_some.mp h
      exact .inl ⟨k, rfl, hk, (Option.some.inj h).symm⟩
    | err e => exact .inr ⟨e, rfl, (Option.some.inj h).symm⟩

theorem receiving_cases {s s' : Receiving L α} {answer : SysResult}
    (h : (lp.receiving m stream start).step s answer = some s') :
    ∃ l, s.call = .running l ∧
      ((∃ k, answer = .ok k ∧ k ≤ lp.count l ∧ k ≤ s.incoming.length ∧
          s' = ⟨lp.step l (.ok k), s.mem.store (lp.ptr l) (s.incoming.take k),
            s.incoming.drop k⟩) ∨
        ∃ e, answer = .err e ∧ s' = ⟨lp.step l (.err e), s.mem, s.incoming⟩) := by
  cases hc : s.call with
  | returned ret => simp [receiving, hc] at h
  | running l =>
    refine ⟨l, rfl, ?_⟩
    simp only [receiving, hc] at h
    cases answer with
    | ok k =>
      obtain ⟨⟨hk, havail⟩, h⟩ := Option.ite_none_right_eq_some.mp h
      exact .inl ⟨k, rfl, hk, havail, (Option.some.inj h).symm⟩
    | err e => exact .inr ⟨e, rfl, (Option.some.inj h).symm⟩

theorem sending_ok {s : Sending L α} {l : L} {k : Nat} (hc : s.call = .running l)
    (hk : k ≤ lp.count l) : (lp.sending m start).step s (.ok k) =
      some ⟨lp.step l (.ok k), s.out ++ m.load (lp.ptr l) k⟩ := by
  simp [sending, hc, hk]

theorem sending_err {s : Sending L α} {l : L} (hc : s.call = .running l) (e : Errno) :
    (lp.sending m start).step s (.err e) = some ⟨lp.step l (.err e), s.out⟩ := by
  simp [sending, hc]

/-- What the loop does with the answers does not depend on the cells. -/
theorem calls_of_sending {s t : Sending L α}
    (hrun : (lp.sending m start).run s es = some t) :
    (lp.calls start).run s.call es = some t.call := by
  refine Machine.run_map (f := Sending.call) (fun s answer s' h => ?_) hrun
  obtain ⟨l, hc, ⟨k, rfl, hk, rfl⟩ | ⟨e, rfl, rfl⟩⟩ := sending_cases h
  · simp [calls, hc, hk]
  · simp [calls, hc]

theorem calls_of_receiving {s t : Receiving L α}
    (hrun : (lp.receiving m stream start).run s es = some t) :
    (lp.calls start).run s.call es = some t.call := by
  refine Machine.run_map (f := Receiving.call) (fun s answer s' h => ?_) hrun
  obtain ⟨l, hc, ⟨k, rfl, hk, -, rfl⟩ | ⟨e, rfl, rfl⟩⟩ := receiving_cases h
  · simp [calls, hc, hk]
  · simp [calls, hc]

/-! ### What is moved -/

/-- What was accepted is the beginning of the buffer. -/
theorem Moves.sent (h : lp.Moves rest base n At) {s : Sending L α} (hat : At 0 start)
    (hrun : (lp.sending m start).run ⟨start, []⟩ es = some s) :
    At s.out.length s.call ∧ s.out = m.load base s.out.length := by
  have hstart : At ([] : List α).length start ∧ ([] : List α) = m.load base 0 := ⟨hat, rfl⟩
  refine Machine.run_invariant (I := fun s : Sending L α =>
    At s.out.length s.call ∧ s.out = m.load base s.out.length)
    (fun s answer s' hs he => ?_) hstart hrun
  obtain ⟨hat, hout⟩ := hs
  obtain ⟨l, hc, ⟨k, rfl, hk, rfl⟩ | ⟨e, rfl, rfl⟩⟩ := sending_cases he
  · rw [hc] at hat
    simp only [List.length_append, Mem.length_load]
    exact ⟨h.step_ok hat hk, by rw [Mem.load_add, ← hout, h.ptr hat]⟩
  · rw [hc] at hat
    exact ⟨h.step_err hat e, hout⟩

/-- What was taken from the stream is the beginning of the buffer, and nothing else changed. -/
theorem Moves.received (h : lp.Moves rest base n At) {s : Receiving L α} (hat : At 0 start)
    (hrun : (lp.receiving m stream start).run ⟨start, m, stream⟩ es = some s) :
    ∃ got, At got s.call ∧ got ≤ stream.length ∧ s.mem = m.store base (stream.take got) ∧
      s.incoming = stream.drop got := by
  refine Machine.run_invariant (I := fun s : Receiving L α => ∃ got, At got s.call ∧
      got ≤ stream.length ∧ s.mem = m.store base (stream.take got) ∧
      s.incoming = stream.drop got)
    (fun s answer s' hs he => ?_) ⟨0, hat, Nat.zero_le _, by simp, rfl⟩ hrun
  obtain ⟨got, hat, hgot, hmem, hin⟩ := hs
  obtain ⟨l, hc, ⟨k, rfl, hk, havail, rfl⟩ | ⟨e, rfl, rfl⟩⟩ := receiving_cases he
  · rw [hc] at hat
    rw [hin, List.length_drop] at havail
    have hlen : (stream.take got).length = got := List.length_take_of_le hgot
    refine ⟨got + k, h.step_ok hat hk, by omega, ?_, by rw [hin, List.drop_drop]⟩
    rw [hmem, hin, h.ptr hat, List.take_add, ← Mem.store_store, hlen]
  · rw [hc] at hat
    exact ⟨got, h.step_err hat e, hgot, hmem, hin⟩

/-- A loop that returns after a call that moved something only once all is moved. Where it
returned with less, it did so before the first call, or its last call is not made again. -/
theorem Moves.sending_short (h : lp.Moves rest base n At) (hretry : lp.Retries At)
    (hfull : ∀ {moved l k ret}, At moved (.running l) → k + 1 ≤ lp.count l →
      lp.step l (.ok (k + 1)) = .returned ret → moved + (k + 1) = n)
    {s : Sending L α} (hat : At 0 start)
    (hrun : (lp.sending m start).run ⟨start, []⟩ es = some s) {ret : Int}
    (hret : s.call = .returned ret) (hshort : s.out.length ≠ n) :
    start = .returned ret ∨ ∃ answer ∈ es.getLast?, answer.ends = true := by
  have hstart : At ([] : List α).length start ∧
      ∀ ret, start = .returned ret → ([] : List α).length ≠ n →
        start = .returned ret ∨ ∃ answer ∈ ([] : List SysResult).getLast?, answer.ends = true :=
    ⟨hat, fun ret hret _ => .inl hret⟩
  refine (Machine.run_history (I := fun es (s : Sending L α) => At s.out.length s.call ∧
      ∀ ret, s.call = .returned ret → s.out.length ≠ n →
        start = .returned ret ∨ ∃ answer ∈ es.getLast?, answer.ends = true)
    (fun es s answer s' hs he => ?_) hstart hrun).2 ret hret hshort
  obtain ⟨hat, -⟩ := hs
  have hlast : answer ∈ (es ++ [answer]).getLast? := List.getLast?_concat
  obtain ⟨l, hc, ⟨k, rfl, hk, rfl⟩ | ⟨e, rfl, rfl⟩⟩ := sending_cases he <;> rw [hc] at hat
  · simp only [List.length_append, Mem.length_load]
    refine ⟨h.step_ok hat hk, fun ret hret hshort => ?_⟩
    cases k with
    | zero => exact .inr ⟨_, hlast, rfl⟩
    | succ k => exact absurd (hfull hat hk hret) hshort
  · refine ⟨h.step_err hat e, fun ret hret _ => .inr ⟨_, hlast, ?_⟩⟩
    rw [SysResult.ends, Bool.not_eq_true', ← Bool.not_eq_true]
    intro htransient
    rw [hretry.transient hat htransient] at hret
    cases hret

/-! ### Answers that change nothing -/

/-- The result and the cells that were sent do not depend on the transient errors. -/
theorem Moves.sending_filter (h : lp.Moves rest base n At) (hretry : lp.Retries At)
    {s : Sending L α} (hat : At 0 start)
    (hrun : (lp.sending m start).run ⟨start, []⟩ es = some s) :
    (lp.sending m start).run ⟨start, []⟩ (es.filter fun answer => !answer.transient) =
      some s := by
  refine Machine.run_filter (I := fun s : Sending L α => ∃ moved, At moved s.call) ?_ ?_
    ⟨0, hat⟩ hrun
  · rintro s answer s' ⟨moved, hat⟩ he
    obtain ⟨l, hc, ⟨k, rfl, hk, rfl⟩ | ⟨e, rfl, rfl⟩⟩ := sending_cases he
    · exact ⟨moved + k, h.step_ok (hc ▸ hat) hk⟩
    · exact ⟨moved, h.step_err (hc ▸ hat) e⟩
  · rintro s answer s' ⟨moved, hat⟩ htransient he
    obtain ⟨l, hc, ⟨k, rfl, hk, rfl⟩ | ⟨e, rfl, rfl⟩⟩ := sending_cases he
    · cases htransient
    · have he : e.transient = true := by simpa [SysResult.transient] using htransient
      rw [hretry.transient (hc ▸ hat) he, ← hc]

/-- Nor do the result, the buffer and the stream. -/
theorem Moves.receiving_filter (h : lp.Moves rest base n At) (hretry : lp.Retries At)
    {s : Receiving L α} (hat : At 0 start)
    (hrun : (lp.receiving m stream start).run ⟨start, m, stream⟩ es = some s) :
    (lp.receiving m stream start).run ⟨start, m, stream⟩
      (es.filter fun answer => !answer.transient) = some s := by
  refine Machine.run_filter (I := fun s : Receiving L α => ∃ moved, At moved s.call) ?_ ?_
    ⟨0, hat⟩ hrun
  · rintro s answer s' ⟨moved, hat⟩ he
    obtain ⟨l, hc, ⟨k, rfl, hk, -, rfl⟩ | ⟨e, rfl, rfl⟩⟩ := receiving_cases he
    · exact ⟨moved + k, h.step_ok (hc ▸ hat) hk⟩
    · exact ⟨moved, h.step_err (hc ▸ hat) e⟩
  · rintro s answer s' ⟨moved, hat⟩ htransient he
    obtain ⟨l, hc, ⟨k, rfl, hk, -, rfl⟩ | ⟨e, rfl, rfl⟩⟩ := receiving_cases he
    · cases htransient
    · have he : e.transient = true := by simpa [SysResult.transient] using htransient
      rw [hretry.transient (hc ▸ hat) he, ← hc]

/-! ### How many calls are made -/

/-- What is left to do by a measure of the loop, nothing once it has returned. -/
def left (μ : L → Nat) : Call L → Nat
  | .running l => μ l
  | .returned _ => 0

/-- Every answer of the kind `p` uses some of `μ` up and no answer adds to it, so that a loop
makes at most `μ` calls with such answers; the loop runs only while something is left. -/
structure Spends (lp : IoLoop L) (I : Call L → Prop) (p : SysResult → Bool) (μ : L → Nat) :
    Prop where
  pos : ∀ {l}, I (.running l) → 0 < μ l
  keep_ok : ∀ {l k}, I (.running l) → k ≤ lp.count l → I (lp.step l (.ok k))
  keep_err : ∀ {l}, I (.running l) → ∀ e, I (lp.step l (.err e))
  ok : ∀ {l k}, I (.running l) → k ≤ lp.count l →
    left μ (lp.step l (.ok k)) + (if p (.ok k) then 1 else 0) ≤ μ l
  err : ∀ {l}, I (.running l) → ∀ e,
    left μ (lp.step l (.err e)) + (if p (.err e) then 1 else 0) ≤ μ l

section
variable {I : Call L → Prop} {p : SysResult → Bool} {μ : L → Nat} {c d : Call L}

theorem Spends.step (h : lp.Spends I p μ) {answer : SysResult} (hc : I c)
    (he : (lp.calls start).step c answer = some d) :
    I d ∧ left μ d + (if p answer then 1 else 0) ≤ left μ c := by
  obtain ⟨l, rfl, rfl, hk⟩ := calls_cases he
  cases answer with
  | ok k => exact ⟨h.keep_ok hc hk, h.ok hc hk⟩
  | err e => exact ⟨h.keep_err hc e, h.err hc e⟩

theorem Spends.run (h : lp.Spends I p μ) (hc : I c)
    (hrun : (lp.calls start).run c es = some d) : I d ∧ left μ d + es.countP p ≤ left μ c := by
  constructor
  · exact Machine.run_invariant (fun c answer d hc he => (h.step hc he).1) hc hrun
  · exact Machine.run_countP_le (C := fun _ _ => True)
      (fun c answer d hc _ he => (h.step hc he).1) (fun c answer d hc _ he => (h.step hc he).2)
      (Machine.eachStep_true _ _) hc hrun

/-- A loop that still runs has had fewer answers that count than its measure allows. -/
theorem Spends.countP_lt (h : lp.Spends I p μ) (hc : I c) {l : L}
    (hrun : (lp.calls start).run c es = some (.running l)) : es.countP p < left μ c := by
  obtain ⟨hl, hspent⟩ := h.run hc hrun
  have hpos := h.pos hl
  simp only [left] at hspent ⊢
  omega

end

/-- A loop that retries makes at most as many other calls as it has cells to move. -/
theorem Moves.spends (h : lp.Moves rest base n At) (hretry : lp.Retries At) :
    lp.Spends (fun c => ∃ moved, At moved c) (fun answer => !answer.transient) rest := by
  have hpos : ∀ {moved l}, At moved (.running l) → 0 < rest l := by
    intro moved l hat
    exact Nat.lt_of_lt_of_le (hretry.pos hat) (h.count_le hat)
  have hreturned : ∀ {l c}, 0 < rest l → (∃ ret, c = Call.returned ret) →
      left rest c + 1 ≤ rest l := by
    rintro l c hpos ⟨ret, rfl⟩
    simp only [left]
    omega
  constructor
  · rintro l ⟨moved, hat⟩
    exact hpos hat
  · rintro l k ⟨moved, hat⟩ hk
    exact ⟨moved + k, h.step_ok hat hk⟩
  · rintro l ⟨moved, hat⟩ e
    exact ⟨moved, h.step_err hat e⟩
  · rintro l k ⟨moved, hat⟩ hk
    cases k with
    | zero => exact hreturned (hpos hat) (hretry.nothing hat)
    | succ k =>
      have hrest := h.rest_eq hat
      have hnext := h.step_ok hat hk
      cases hc : lp.step l (.ok (k + 1)) with
      | returned ret => exact hreturned (hpos hat) ⟨ret, rfl⟩
      | running l' =>
        rw [hc] at hnext
        have hrest' := h.rest_eq hnext
        simp only [left, SysResult.transient, Bool.not_false, if_true]
        omega
  · rintro l ⟨moved, hat⟩ e
    cases he : e.transient with
    | true => simp [hretry.transient hat he, left, SysResult.transient, he]
    | false =>
      simp only [SysResult.transient, he, Bool.not_false, if_true]
      exact hreturned (hpos hat) (hretry.lasting hat he)

/-- It returns on every script with finitely many transient errors. -/
theorem Moves.returns {σ : Type*} {M : Machine σ SysResult} {call : σ → Call L} {s : σ}
    {script : Nat → SysResult} (h : lp.Moves rest base n At) (hretry : lp.Retries At)
    (hat : At 0 (call s))
    (hcalls : ∀ es t, M.run s es = some t → (lp.calls start).run (call s) es = some (call t))
    (hfinite : {i | (script i).transient = true}.Finite)
    (hfollows : M.Follows (fun t => ∃ ret, call t = .returned ret) s script) :
    ∃ k t ret, M.follow s script k = some t ∧ call t = .returned ret := by
  obtain ⟨N, hN⟩ := exists_countP_le hfinite
  have hbound : ∀ k t, M.follow s script k = some t → ¬ (∃ ret, call t = .returned ret) →
      k < left rest (call s) + N := by
    intro k t ht hrunning
    have hrun := hcalls _ t ht
    cases hc : call t with
    | returned ret => exact absurd ⟨ret, hc⟩ hrunning
    | running l =>
      rw [hc] at hrun
      have hlt := (h.spends hretry).countP_lt ⟨0, hat⟩ hrun
      have hle := hN k
      have hall := List.length_eq_countP_add_countP SysResult.transient
        (l := (List.range k).map script)
      simp only [List.length_map, List.length_range, Bool.not_eq_true] at hall
      simp only [Bool.decide_eq_false] at hall
      omega
  obtain ⟨k, t, -, ht, ret, hret⟩ := hfollows.stops hbound
  exact ⟨k, t, ret, ht, hret⟩

/-- It can be given any script that answers each call with an error or with one cell. -/
theorem Moves.follows (h : lp.Moves rest base n At) (hretry : lp.Retries At) (hat : At 0 start)
    {script : Nat → SysResult} (hscript : ∀ i, (∃ e, script i = .err e) ∨ script i = .ok 1) :
    (lp.sending m start).Follows (fun s => ∃ ret, s.call = .returned ret) ⟨start, []⟩ script := by
  intro k s hrun hrunning
  obtain ⟨hat, -⟩ := h.sent hat hrun
  cases hc : s.call with
  | returned ret => exact absurd ⟨ret, hc⟩ hrunning
  | running l =>
    rw [hc] at hat
    rcases hscript k with ⟨e, he⟩ | hone
    · rw [he]
      exact ⟨_, sending_err hc e⟩
    · rw [hone]
      exact ⟨_, sending_ok hc (hretry.pos hat)⟩

end IoLoop

end ITrace
