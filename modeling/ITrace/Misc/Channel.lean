import ITrace.Misc.Transfer
import Mathlib.Algebra.Ring.Nat

/-!
# Two loops and a channel

A loop that sends its buffer and a loop that fills another one, with a channel between them that
loses, doubles and reorders nothing and that holds at most `cap` cells. In every state the channel
has what was sent and not taken yet (`Joined`), so the receiver's buffer has the beginning of the
sender's, whichever of the two moves when and whatever pieces the cells come in. As long as
neither has failed, one of them can move (`Joined.progress`).
-/

namespace ITrace.IoLoop

variable {L M α : Type*}

/-- Where both loops stand, what the channel holds, and the memory of the receiver. -/
structure Linked (L M α : Type*) where
  sender : Call L
  receiver : Call M
  queue : List α
  mem : Mem α

inductive LinkEvent where
  | send (answer : SysResult)
  | receive (answer : SysResult)
  deriving DecidableEq

/-- What the sender was answered. -/
def LinkEvent.toSender : LinkEvent → Option SysResult
  | .send answer => some answer
  | .receive _ => none

/-- What the receiver was answered. -/
def LinkEvent.toReceiver : LinkEvent → Option SysResult
  | .send _ => none
  | .receive answer => some answer

/-- The cells an event moves. -/
def LinkEvent.moved : LinkEvent → Nat
  | .send answer => answer.moved
  | .receive answer => answer.moved

/-- `out` sends cells of `src`, `into` stores them in a memory that is `mem` at first. -/
def link (out : IoLoop L) (into : IoLoop M) (cap : Nat) (src mem : Mem α) (start : Call L)
    (start' : Call M) : Machine (Linked L M α) LinkEvent where
  init s := s = ⟨start, start', [], mem⟩
  step s
    | .send answer =>
        if s.queue.length + answer.moved ≤ cap then
          ((out.sending src start).step ⟨s.sender, []⟩ answer).map fun t =>
            { s with sender := t.call, queue := s.queue ++ t.out }
        else none
    | .receive answer =>
        ((into.receiving mem [] start').step ⟨s.receiver, s.mem, s.queue⟩ answer).map fun t =>
          { s with receiver := t.call, mem := t.mem, queue := t.incoming }

/-- The sender has sent `put` cells from `base` on, and the receiver has stored `got` of them from
`base'` on. -/
structure Joined (src mem : Mem α) (base base' n : Nat) (At : Nat → Call L → Prop)
    (At' : Nat → Call M → Prop) (put got : Nat) (s : Linked L M α) : Prop where
  sender : At put s.sender
  receiver : At' got s.receiver
  got_le : got ≤ put
  put_le : put ≤ n
  queue : s.queue = src.load (base + got) (put - got)
  mem : s.mem = mem.store base' (src.load base got)

variable {out : IoLoop L} {into : IoLoop M} {cap : Nat} {src mem : Mem α} {start : Call L}
  {start' : Call M} {rest : L → Nat} {rest' : M → Nat} {base base' n put got : Nat}
  {At : Nat → Call L → Prop} {At' : Nat → Call M → Prop} {s s' : Linked L M α}
  {es : List LinkEvent}

/-- After an answer that satisfies `p` the loop runs on, or it has moved all its `n` cells. -/
def Persists (lp : IoLoop L) (n : Nat) (At : Nat → Call L → Prop) (p : SysResult → Prop) : Prop :=
  ∀ {moved l answer}, At moved (.running l) → p answer → answer.moved ≤ lp.count l →
    (∃ l', lp.step l answer = .running l') ∨ moved + answer.moved = n

/-! ### Steps -/

theorem link_cases {e : LinkEvent} (h : (out.link into cap src mem start start').step s e = some s') :
    (∃ l, s.sender = .running l ∧
      ((∃ k, e = .send (.ok k) ∧ k ≤ out.count l ∧
          s' = { s with sender := out.step l (.ok k),
                        queue := s.queue ++ src.load (out.ptr l) k }) ∨
        ∃ errno, e = .send (.err errno) ∧ s' = { s with sender := out.step l (.err errno) })) ∨
    ∃ l, s.receiver = .running l ∧
      ((∃ k, e = .receive (.ok k) ∧ k ≤ into.count l ∧ k ≤ s.queue.length ∧
          s' = { s with receiver := into.step l (.ok k), queue := s.queue.drop k,
                        mem := s.mem.store (into.ptr l) (s.queue.take k) }) ∨
        ∃ errno, e = .receive (.err errno) ∧
          s' = { s with receiver := into.step l (.err errno) }) := by
  cases e with
  | send answer =>
    obtain ⟨-, h⟩ := Option.ite_none_right_eq_some.mp h
    obtain ⟨t, ht, rfl⟩ := Option.map_eq_some_iff.mp h
    obtain ⟨l, hl, ⟨k, rfl, hk, rfl⟩ | ⟨errno, rfl, rfl⟩⟩ := sending_cases ht
    · exact .inl ⟨l, hl, .inl ⟨k, rfl, hk, by simp⟩⟩
    · exact .inl ⟨l, hl, .inr ⟨errno, rfl, by simp⟩⟩
  | receive answer =>
    obtain ⟨t, ht, rfl⟩ := Option.map_eq_some_iff.mp h
    obtain ⟨l, hl, ⟨k, rfl, hk, hq, rfl⟩ | ⟨errno, rfl, rfl⟩⟩ := receiving_cases ht
    · exact .inr ⟨l, hl, .inl ⟨k, rfl, hk, hq, rfl⟩⟩
    · exact .inr ⟨l, hl, .inr ⟨errno, rfl, rfl⟩⟩

/-- What the sender does depends on its own answers only. -/
theorem calls_sender (hrun : (out.link into cap src mem start start').run s es = some s') :
    (out.calls start).run s.sender (es.filterMap LinkEvent.toSender) = some s'.sender := by
  induction es generalizing s with
  | nil =>
    cases hrun
    rfl
  | cons e es ih =>
    obtain ⟨t, he, hes⟩ := Machine.run_cons_iff.mp hrun
    have hrest := ih hes
    rcases link_cases he with ⟨l, hl, ⟨k, rfl, hk, rfl⟩ | ⟨errno, rfl, rfl⟩⟩ |
      ⟨l, hl, ⟨k, rfl, hk, hq, rfl⟩ | ⟨errno, rfl, rfl⟩⟩
    · exact Machine.run_cons_iff.mpr ⟨_, by simp [calls, hl, hk], hrest⟩
    · exact Machine.run_cons_iff.mpr ⟨_, by simp [calls, hl], hrest⟩
    · exact hrest
    · exact hrest

theorem calls_receiver (hrun : (out.link into cap src mem start start').run s es = some s') :
    (into.calls start').run s.receiver (es.filterMap LinkEvent.toReceiver) =
      some s'.receiver := by
  induction es generalizing s with
  | nil =>
    cases hrun
    rfl
  | cons e es ih =>
    obtain ⟨t, he, hes⟩ := Machine.run_cons_iff.mp hrun
    have hrest := ih hes
    rcases link_cases he with ⟨l, hl, ⟨k, rfl, hk, rfl⟩ | ⟨errno, rfl, rfl⟩⟩ |
      ⟨l, hl, ⟨k, rfl, hk, hq, rfl⟩ | ⟨errno, rfl, rfl⟩⟩
    · exact hrest
    · exact hrest
    · exact Machine.run_cons_iff.mpr ⟨_, by simp [calls, hl, hk], hrest⟩
    · exact Machine.run_cons_iff.mpr ⟨_, by simp [calls, hl], hrest⟩

/-- A loop that got only answers after which it persists returns with all its cells moved. -/
theorem Moves.persists {lp : IoLoop L} (h : lp.Moves rest base n At) {p : SysResult → Prop}
    (hp : lp.Persists n At p) (hat : At 0 start) (hstart : ∀ ret, start = .returned ret → n = 0)
    {answers : List SysResult} (hgood : ∀ answer ∈ answers, p answer) {c : Call L}
    (hrun : (lp.calls start).run start answers = some c) :
    ∃ moved, At moved c ∧ ∀ ret, c = .returned ret → moved = n := by
  have hall : ∀ (answers : List SysResult) (c d : Call L) (moved : Nat), At moved c →
      (∀ ret, c = .returned ret → moved = n) → (∀ answer ∈ answers, p answer) →
      (lp.calls start).run c answers = some d →
      ∃ moved, At moved d ∧ ∀ ret, d = .returned ret → moved = n := by
    intro answers
    induction answers with
    | nil =>
      intro c d moved hat hret _ hrun
      cases hrun
      exact ⟨moved, hat, hret⟩
    | cons answer answers ih =>
      intro c d moved hat hret hgood hrun
      obtain ⟨c', he, hes⟩ := Machine.run_cons_iff.mp hrun
      rw [List.forall_mem_cons] at hgood
      obtain ⟨l, rfl, rfl, hcount⟩ := calls_cases he
      refine ih _ d (moved + answer.moved) ?_ (fun ret hret => ?_) hgood.2 hes
      · cases answer with
        | ok k => exact h.step_ok hat hcount
        | err e => exact h.step_err hat e
      · rcases hp hat hgood.1 hcount with ⟨l', hl'⟩ | hn
        · rw [hl'] at hret
          cases hret
        · exact hn
  exact hall answers start c 0 hat (fun ret hret => (hstart ret hret).symm) hgood hrun

/-! ### What is where -/

theorem Joined.length_queue (h : Joined src mem base base' n At At' put got s) :
    s.queue.length = put - got := by
  rw [h.queue, Mem.length_load]

section
variable (hout : out.Moves rest base n At) (hinto : into.Moves rest' base' n At')
include hout hinto

/-- A step moves its cells from the sender into the channel, or from there to the receiver. -/
theorem Joined.step {e : LinkEvent} (h : Joined src mem base base' n At At' put got s)
    (he : (out.link into cap src mem start start').step s e = some s') :
    ∃ put' got', Joined src mem base base' n At At' put' got' s' ∧
      put' + got' = put + got + e.moved := by
  rcases link_cases he with ⟨l, hl, ⟨k, rfl, hk, rfl⟩ | ⟨errno, rfl, rfl⟩⟩ |
    ⟨l, hl, ⟨k, rfl, hk, hq, rfl⟩ | ⟨errno, rfl, rfl⟩⟩
  · have hat := h.sender
    rw [hl] at hat
    have hcount := hout.count_le hat
    have hrest := hout.rest_eq hat
    have hgot := h.got_le
    refine ⟨put + k, got, ⟨hout.step_ok hat hk, h.receiver, by omega, by omega, ?_, h.mem⟩,
      Nat.add_right_comm put k got⟩
    have hsum : put + k - got = (put - got) + k := by omega
    have hnext : base + got + (put - got) = base + put := by omega
    rw [hsum, Mem.load_add, ← h.queue, hout.ptr hat, hnext]
  · have hat := h.sender
    rw [hl] at hat
    exact ⟨put, got, ⟨hout.step_err hat errno, h.receiver, h.got_le, h.put_le, h.queue, h.mem⟩, rfl⟩
  · have hat := h.receiver
    rw [hl] at hat
    rw [h.length_queue] at hq
    have hput := h.put_le
    have hgot := h.got_le
    have htake : s.queue.take k = src.load (base + got) k := by
      have hsub := Mem.load_sub (m := src) (a := base + got) (n := put - got) rfl
        (i := 0) (k := k) (by omega)
      rw [Nat.add_zero, List.drop_zero] at hsub
      rw [h.queue, hsub]
    refine ⟨put, got + k, ⟨h.sender, hinto.step_ok hat hk, by omega, hput, ?_, ?_⟩,
      (Nat.add_assoc put got k).symm⟩
    · rw [h.queue, Mem.drop_load _ _ hq, Nat.add_assoc, Nat.sub_sub]
    · have hlen : (src.load base got).length = got := Mem.length_load ..
      have hstore := Mem.store_store mem base' (src.load base got) (src.load (base + got) k)
      rw [hlen] at hstore
      rw [h.mem, htake, hinto.ptr hat, hstore, Mem.load_add]
  · have hat := h.receiver
    rw [hl] at hat
    exact ⟨put, got, ⟨h.sender, hinto.step_err hat errno, h.got_le, h.put_le, h.queue, h.mem⟩, rfl⟩

/-- In every run the receiver's buffer has the beginning of the sender's, and no cell of its memory
outside the buffer was written. -/
theorem Joined.run (hat : At 0 start) (hat' : At' 0 start')
    (hrun : (out.link into cap src mem start start').run ⟨start, start', [], mem⟩ es = some s) :
    ∃ put got, Joined src mem base base' n At At' put got s ∧
      put + got = (es.map LinkEvent.moved).sum := by
  refine Machine.run_history (I := fun es s => ∃ put got,
    Joined src mem base base' n At At' put got s ∧ put + got = (es.map LinkEvent.moved).sum)
    ?_ ⟨0, 0, ⟨hat, hat', Nat.le_refl 0, Nat.zero_le n, rfl, by simp [Mem.load]⟩, rfl⟩ hrun
  rintro es s e s' ⟨put, got, h, hsum⟩ he
  obtain ⟨put', got', h', hmoved⟩ := h.step hout hinto he
  refine ⟨put', got', h', ?_⟩
  simp [hmoved, hsum]

/-- As long as neither has stopped before it was through, both are through or one can move a cell:
the sender while the channel has room, the receiver while it holds something. -/
theorem Joined.progress (h : Joined src mem base base' n At At' put got s) (hcap : 0 < cap)
    (hpos : ∀ {l}, At put (.running l) → 0 < out.count l)
    (hpos' : ∀ {l}, At' got (.running l) → 0 < into.count l)
    (hsender : ∀ ret, s.sender = .returned ret → put = n)
    (hreceiver : ∀ ret, s.receiver = .returned ret → got = n) :
    (∃ ret ret', s.sender = .returned ret ∧ s.receiver = .returned ret' ∧ s.queue = []) ∨
      ∃ e t, (out.link into cap src mem start start').step s e = some t ∧ e.moved = 1 := by
  have hput := h.put_le
  have hgot := h.got_le
  have hlen := h.length_queue
  -- the receiver can take a cell that is in the channel
  have htake : ∀ l, s.receiver = .running l → got < put →
      ∃ e t, (out.link into cap src mem start start').step s e = some t ∧ e.moved = 1 := by
    intro l hl hlt
    have hat := h.receiver
    rw [hl] at hat
    have hcount : 1 ≤ into.count l := hpos' hat
    have hone : 1 ≤ s.queue.length := by omega
    exact ⟨.receive (.ok 1), _, by simp [link, receiving, hl, hcount, hone]; rfl, rfl⟩
  cases hs : s.sender with
  | running l =>
    have hat := h.sender
    rw [hs] at hat
    have hcount : 1 ≤ out.count l := hpos hat
    have hle := hout.count_le hat
    have hrest := hout.rest_eq hat
    refine .inr ?_
    by_cases hroom : s.queue.length + 1 ≤ cap
    · exact ⟨.send (.ok 1), _, by simp [link, sending, hs, hcount, SysResult.moved, hroom]; rfl, rfl⟩
    · cases hr : s.receiver with
      | running l' => exact htake l' hr (by omega)
      | returned ret' =>
        have hall := hreceiver ret' hr
        omega
  | returned ret =>
    have hall := hsender ret hs
    cases hr : s.receiver with
    | running l' =>
      have hat := h.receiver
      rw [hr] at hat
      have hcount := hpos' hat
      have hle := hinto.count_le hat
      have hrest := hinto.rest_eq hat
      exact .inr (htake l' hr (by omega))
    | returned ret' =>
      have hall' := hreceiver ret' hr
      refine .inl ⟨ret, ret', rfl, rfl, List.eq_nil_of_length_eq_zero ?_⟩
      omega

end

end ITrace.IoLoop
