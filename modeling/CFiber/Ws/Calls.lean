/-
  CFiber.Ws.Calls — the sockets of the echo server are those of the reactor.

  `cfiber_ev_read` and `cfiber_ev_write` of `Wire` are loops that nothing interrupts.  The calls of a
  fiber of the reactor are; what they return over the answers of their system calls is the same.

    • `read_replay`, `write_replay` — the loops over a wire's answers;
    • `calls_on_wire`               — a call of any run returns what it returns on the wire that gave
                                      its answers.
-/
import CFiber.Ev.Replay
import CFiber.Ws.Wire

namespace CFiber.Ws

open CFiber.Base CFiber.Ev

variable {T : Memory.Target} {γ σ κ δ : Type}
variable {L : Libc γ} {P : StackPool σ} {K : Kernel κ δ}

/-! ## §1. The answers of a wire. -/

/-- What the reads of `n` bytes are answered by `as`, up to the one that takes bytes. -/
def Wire.read_answers (w : Wire) (n : Nat) (as : List Answer) : List (Except Errno Nat) :=
  as.map (w.kernel_read n)

/-- What the writes of `buf` from `off` on are answered. -/
def Wire.write_answers (buf : List UInt8) : List Answer → (off : Nat) → Wire → List (Except Errno Nat)
  | [], _, _ => []
  | a :: as, off, w =>
    let answer := w.kernel_write (buf.length - off) a
    let took := answer.toOption.getD 0
    answer :: write_answers buf as (off + took) (w.took buf off took)

/-- What C's caller sees of the result of a call. -/
def returns : CallRet → Int
  | .count n => n
  | _ => -1

/-! ## §2. Reads. -/

section
variable {w : Wire} {n : Nat} {c c' : Call} {res : CallRet}

theorem answer_read {fd : Int} {t : Int64} (hop : c.op = .read fd n t) (r : Except Errno Nat) :
    c.answer r = (read_turn r, c) := by
  unfold Call.answer
  rw [hop]

/-- **A read over the answers of a wire**, by induction on them. -/
theorem read_replay {fd : Int} {t : Int64} (hop : c.op = .read fd n t) (more : List Answer)
    (as : List Answer) : ∀ (fuel : Nat) (w : Wire), as.length ≤ fuel → w.reads = as ++ more →
      c.replay (w.read_answers n as) = (c', some res) →
      ∃ bytes w', w.read_impl n fuel = (returns res, bytes, w') ∧
        ∀ k, res = .count k → bytes = w.inbox.take k ∧ w'.inbox = w.inbox.drop k := by
  induction as with
  | nil =>
      intro fuel w _ _ h
      cases h
  | cons a as ih =>
      intro fuel w hfuel hw h
      obtain ⟨fuel, rfl⟩ : ∃ m, fuel = m + 1 := ⟨fuel - 1, by rw [List.length_cons] at hfuel; omega⟩
      rw [List.length_cons, Nat.succ_le_succ_iff] at hfuel
      have hrest := ih fuel { w with reads := as ++ more } hfuel rfl
      have hanswers : w.read_answers n (a :: as) =
          w.kernel_read n a :: { w with reads := as ++ more }.read_answers n as := rfl
      rw [hanswers, Call.replay, answer_read hop] at h
      rw [Wire.read_impl_turn hw]
      generalize read_turn (w.kernel_read n a) = turn at h ⊢
      cases turn with
      | done k =>
          obtain rfl : CallRet.count k = res := Option.some.inj (congrArg Prod.snd h)
          refine ⟨_, _, rfl, fun k' hk => ?_⟩
          obtain rfl : k = k' := CallRet.count.inj hk
          exact ⟨rfl, rfl⟩
      | fail e =>
          obtain rfl : CallRet.failed e = res := Option.some.inj (congrArg Prod.snd h)
          exact ⟨_, _, rfl, fun k hk => by cases hk⟩
      | retry => exact hrest h
      | block => exact hrest h

end

/-! ## §3. Writes. -/

section
variable {c c' : Call} {res : CallRet}

theorem answer_write {fd : Int} {buf : List UInt8} {t : Int64} (hop : c.op = .write fd buf t)
    (r : Except Errno Nat) :
    c.answer r = ((write_turn buf.length c.off r).1,
      { c with
        off := (write_turn buf.length c.off r).2
        sent := c.sent ++ (buf.drop c.off).take (r.toOption.getD 0) }) := by
  unfold Call.answer
  rw [hop]

/-- The place in the buffer after a turn. -/
theorem write_turn_off (n off : Nat) (r : Except Errno Nat) :
    (write_turn n off r).2 = off + r.toOption.getD 0 := by
  cases r with
  | ok k => cases k <;> rfl
  | error e => cases e <;> rfl

/-- A loop that goes on has bytes left. -/
theorem write_turn_lt {n off : Nat} (hoff : off < n) (r : Except Errno Nat) :
    (write_turn n off r).1 = .retry ∨ (write_turn n off r).1 = .block →
      (write_turn n off r).2 < n := by
  cases r with
  | ok k =>
      cases k with
      | zero => simp [write_turn]
      | succ k =>
          simp only [write_turn]
          split_ifs with hlt
          · exact fun _ => hlt
          · simp
  | error e =>
      intro _
      rw [write_turn_off]
      exact hoff

/-- **A write over the answers of a wire**, by induction on them. -/
theorem write_replay {fd : Int} {buf : List UInt8} {t : Int64} (more : List Answer)
    (as : List Answer) : ∀ (fuel : Nat) (c : Call) (w : Wire), c.op = .write fd buf t →
      as.length ≤ fuel → w.writes = as ++ more → c.off < buf.length →
      c.replay (Wire.write_answers buf as c.off w) = (c', some res) →
      ∃ w' sent, w.write_impl buf fuel c.off = (returns res, w') ∧
        w'.outbox = w.outbox ++ sent ∧ c'.sent = c.sent ++ sent := by
  induction as with
  | nil =>
      intro fuel c w _ _ _ _ h
      cases h
  | cons a as ih =>
      intro fuel c w hop hfuel hw hoff h
      obtain ⟨fuel, rfl⟩ : ∃ m, fuel = m + 1 := ⟨fuel - 1, by rw [List.length_cons] at hfuel; omega⟩
      rw [List.length_cons, Nat.succ_le_succ_iff] at hfuel
      have htail : w.writes.tail = as ++ more := by rw [hw]; rfl
      obtain ⟨r, hr⟩ : ∃ r, r = w.kernel_write (buf.length - c.off) a := ⟨_, rfl⟩
      obtain ⟨k, hk⟩ : ∃ k, k = r.toOption.getD 0 := ⟨_, rfl⟩
      have hanswers : Wire.write_answers buf (a :: as) c.off w =
          r :: Wire.write_answers buf as (c.off + k) (w.took buf c.off k) := by
        rw [hk, hr]
        rfl
      rw [hanswers, Call.replay, answer_write hop, ← hk] at h
      rw [Wire.write_impl_turn hoff hw, ← hr, ← hk]
      have hplace := write_turn_off buf.length c.off r
      rw [← hk] at hplace
      have hgoes := write_turn_lt hoff r
      generalize write_turn buf.length c.off r = x at h hplace hgoes ⊢
      obtain ⟨turn, off⟩ := x
      obtain rfl : off = c.off + k := hplace
      cases turn with
      | done n =>
          obtain ⟨rfl, rfl⟩ : _ = c' ∧ CallRet.count n = res := by simpa using h
          exact ⟨_, _, rfl, rfl, rfl⟩
      | fail e =>
          obtain ⟨rfl, rfl⟩ : _ = c' ∧ CallRet.failed e = res := by simpa using h
          exact ⟨_, _, rfl, rfl, rfl⟩
      | retry =>
          obtain ⟨w', sent, himpl, hout, hsent⟩ := ih fuel
            { c with off := c.off + k, sent := c.sent ++ (buf.drop c.off).take k }
            (w.took buf c.off k) hop hfuel htail (hgoes (Or.inl rfl)) h
          refine ⟨w', (buf.drop c.off).take k ++ sent, himpl, ?_, ?_⟩
          · rw [hout, ← List.append_assoc]
            rfl
          · rw [hsent, List.append_assoc]
      | block =>
          obtain ⟨w', sent, himpl, hout, hsent⟩ := ih fuel
            { c with off := c.off + k, sent := c.sent ++ (buf.drop c.off).take k }
            (w.took buf c.off k) hop hfuel htail (hgoes (Or.inr rfl)) h
          refine ⟨w', (buf.drop c.off).take k ++ sent, himpl, ?_, ?_⟩
          · rw [hout, ← List.append_assoc]
            rfl
          · rw [hsent, List.append_assoc]

end

/-! ## §4. Calls of a run. -/

/-- **A call of a run is a call on a wire.**  In every run of the reactor, whatever its other fibers
    do, the answers of each call can be told so that a read which returns, and not because its wait
    failed, returns what `cfiber_ev_read` returns on any wire whose answers these are, with the same
    bytes left; and a write what `cfiber_ev_write` returns, with the bytes that it has sent handed
    over. -/
theorem calls_on_wire {r : Reactor T γ σ κ} {ds : List (Do δ)} {A : App T γ σ κ}
    (h : exec (App.step L P K) (App.boot r) ds = some A) :
    ∃ log, exec (Logged.step L P K) (Logged.boot r) ds = some ⟨A, log⟩ ∧
      ∀ f c res, A.returned = some (f, c, res) → (∀ st e, res ≠ .wait_failed st e) →
        (∀ fd n t, c.op = .read fd n t → ∀ w : Wire, log f = w.read_answers n w.reads →
          ∃ bytes w', cfiber_ev_read w n = (returns res, bytes, w') ∧
            ∀ k, res = .count k → bytes = w.inbox.take k ∧ w'.inbox = w.inbox.drop k) ∧
        (∀ fd buf t, c.op = .write fd buf t → ∀ w : Wire, log f = Wire.write_answers buf w.writes 0 w →
          ∃ w', cfiber_ev_write w buf = (returns res, w') ∧ w'.outbox = w.outbox ++ c.sent) := by
  obtain ⟨log, hlog, hstraight, -⟩ := calls_straight h
  refine ⟨log, hlog, fun f c res hret hwait => ⟨?_, ?_⟩⟩
  · intro fd n t hop w hw
    have hs := hstraight f c res hret (by rw [hop]; rfl)
    rw [hw] at hs
    cases hs with
    | loop hne h =>
        exact read_replay (c := c.anew) hop [] w.reads (w.reads.length + 1) w (Nat.le_succ _)
          (List.append_nil _).symm h
    | waited => exact absurd rfl (hwait _ _)
    | empty hop' => exact absurd (hop.symm.trans hop') (by simp)
  · intro fd buf t hop w hw
    have hs := hstraight f c res hret (by rw [hop]; rfl)
    rw [hw] at hs
    cases hs with
    | loop hne h =>
        have hlen : 0 < buf.length := by
          apply List.length_pos_of_ne_nil
          rintro rfl
          exact hne fd t hop
        obtain ⟨w', sent, himpl, hout, hsent⟩ := write_replay [] w.writes
          (w.writes.length + buf.length + 1) c.anew w hop (by omega) (List.append_nil _).symm hlen h
        refine ⟨w', himpl, ?_⟩
        rw [hout]
        exact congrArg (w.outbox ++ ·) (hsent.trans (List.nil_append sent)).symm
    | waited => exact absurd rfl (hwait _ _)
    | @empty fd' t' hop' hnil hsent =>
        -- no call is made
        obtain rfl : buf = [] := (Op.write.inj (hop.symm.trans hop')).2.1
        exact ⟨w, rfl, by rw [hsent, List.append_nil]⟩

theorem calls_on_wire_epoll : ∃ r A log, start = some r ∧
    exec (App.step bumpLibc roomyStacks epoll) (App.boot r) two_and_one = some A ∧
    A.returned.isSome ∧
    exec (Logged.step bumpLibc roomyStacks epoll) (Logged.boot r) two_and_one = some ⟨A, log⟩ ∧
    ∀ f c res, A.returned = some (f, c, res) → (∀ st e, res ≠ .wait_failed st e) →
      (∀ fd n t, c.op = .read fd n t → ∀ w : Wire, log f = w.read_answers n w.reads →
        ∃ bytes w', cfiber_ev_read w n = (returns res, bytes, w') ∧
          ∀ k, res = .count k → bytes = w.inbox.take k ∧ w'.inbox = w.inbox.drop k) ∧
      (∀ fd buf t, c.op = .write fd buf t → ∀ w : Wire, log f = Wire.write_answers buf w.writes 0 w →
        ∃ w', cfiber_ev_write w buf = (returns res, w') ∧ w'.outbox = w.outbox ++ c.sent) := by
  have hsome : ((start.bind fun r =>
      exec (App.step bumpLibc roomyStacks epoll) (App.boot r) two_and_one).filter fun A =>
        A.returned.isSome).isSome = true := by
    decide +kernel
  obtain ⟨A, hA⟩ := Option.isSome_iff_exists.mp hsome
  obtain ⟨hA, hret⟩ := Option.filter_eq_some_iff.mp hA
  obtain ⟨r, hr, hrun⟩ := Option.bind_eq_some_iff.mp hA
  obtain ⟨log, hlog, hwire⟩ := calls_on_wire hrun
  exact ⟨r, A, log, hr, hrun, hret, hlog, hwire⟩

-- the answers of that run are those of a wire
example : Wire.write_answers [7, 8, 9] [.bytes 2, .interrupted, .not_ready, .bytes 1] 0
    ⟨[], .closed, [], [], 100, []⟩ = [.ok 2, .error .EINTR, .error .EAGAIN, .ok 1] := rfl

end CFiber.Ws
