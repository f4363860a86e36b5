/-
  CFiber.Ev.Turns — a turn of `read_impl` or `write_impl`.

      made ─▶ top ─ write(2) ─▶ again ─ remaining_ns ─▶ ask ─ cfiber_ev_wait ─▶ parked
               ▲                                                                   │
               └───────────────────────────── READY ───────────────────────────────┘

  `Goes` lists the ways a read or a write can come to where it is, `Stops` the ways it can return.

    • `step_goes`, `step_stops` — a step of `App` takes one of them.

  What is proved about the two helpers is proved by cases on these.
-/
import CFiber.Ev.Transfers

namespace CFiber.Ev

open CFiber.Base CFiber.Memory

variable {T : Target} {γ σ κ δ : Type}
variable {L : Libc γ} {P : StackPool σ} {K : Kernel κ δ}

/-! ## §1. Reads and writes. -/

/-- A call of `cfiber_ev_read`, `cfiber_ev_write` or a timed variant. -/
def Op.transfers : Op → Bool
  | .read _ _ _ | .write _ _ _ => true
  | _ => false

def Op.timeout_ns : Op → Int64
  | .read _ _ timeout_ns | .write _ _ timeout_ns => timeout_ns
  | _ => -1

/-- What the loop of call `c` makes of the answer of its system call, and the call after it. -/
def Call.answer (c : Call) (r : Except Errno Nat) : Turn × Call :=
  match c.op with
  | .write _ buf _ =>
    ((write_turn buf.length c.off r).1,
      { c with
        off := (write_turn buf.length c.off r).2
        sent := c.sent ++ (buf.drop c.off).take (r.toOption.getD 0) })
  | _ => (read_turn r, c)

/-- How much the system call of `c` can take. -/
def Call.room (c : Call) : Nat :=
  match c.op with
  | .read _ n _ => n
  | .write _ buf _ => buf.length - c.off
  | _ => 0

/-- A call that is about to be made. -/
def Op.fresh (op : Op) (s : Reactor T γ σ κ) : Call :=
  ⟨op, s.clock, deadline_after_opt s op.timeout_ns, 0, [], .top⟩

/-- **How a read or a write comes to where it is.** -/
inductive Goes (L : Libc γ) (P : StackPool σ) (K : Kernel κ δ) (A : App T γ σ κ) (d : Do δ)
    (A' : App T γ σ κ) (f : Nat) (c' : Call) : Prop
  /-- It is where it was. -/
  | same (hc : A.calls f = some c') (hd : ∀ e, A.sys.pc = .fiber f e → ∃ a, d = .sys a)
      (hn : (∀ e, A.sys.pc ≠ .fiber f e) → ∀ e st, A'.sys.pc = .fiber f e →
        A'.sys.ret ≠ some (.status st))
  | made (hc : A.calls f = none) (hpc : ∃ e, A.sys.pc = .fiber f e) (hd : d = .call c'.op)
      (hs : A'.sys = A.sys) (hne : ∀ fd t, c'.op ≠ .write fd [] t) (he : c' = c'.op.fresh A.sys.r)
  /-- The system call was interrupted, or took a part. -/
  | again {c : Call} {r : Except Errno Nat} (hc : A.calls f = some c)
      (hpc : ∃ e, A.sys.pc = .fiber f e) (hd : d = .transfer r) (hp : c.place = .top)
      (hs : A'.sys = A.sys) (hr : r.toOption.getD 0 ≤ c.room) (ht : (c.answer r).1 = .retry)
      (he : c' = { (c.answer r).2 with place := .top })
  /-- It would have blocked. -/
  | blocked {c : Call} {r : Except Errno Nat} (hc : A.calls f = some c)
      (hpc : ∃ e, A.sys.pc = .fiber f e) (hd : d = .transfer r) (hp : c.place = .top)
      (hs : A'.sys = A.sys) (hr : r.toOption.getD 0 ≤ c.room) (ht : (c.answer r).1 = .block)
      (he : c' = { (c.answer r).2 with place := .again })
  | looked {c : Call} (hc : A.calls f = some c) (hpc : ∃ e, A.sys.pc = .fiber f e) (hd : d = .look)
      (hp : c.place = .again) (hs : A'.sys = A.sys)
      (he : c' = { c with place := .ask (remaining_ns A.sys.r c.deadline) })
  | parked {c : Call} {t : Int64} {fd : Int} {dir : UInt32} (hc : A.calls f = some c)
      (hpc : ∃ e, A.sys.pc = .fiber f e) (hd : d = .rewait) (hp : c.place = .ask t)
      (ht : App.target c.op = some (fd, dir))
      (hs : CFiber.Ev.step L P K A.sys (.wait fd dir t) = some A'.sys)
      (hn : ∀ st, A'.sys.ret ≠ some (.status st)) (he : c' = { c with place := .parked })
  /-- The wait was refused with `READY`, which it never is. -/
  | returned {c : Call} {t : Int64} {fd : Int} {dir : UInt32} (hc : A.calls f = some c)
      (hpc : ∃ e, A.sys.pc = .fiber f e) (hd : d = .rewait) (hp : c.place = .ask t)
      (ht : App.target c.op = some (fd, dir))
      (hs : CFiber.Ev.step L P K A.sys (.wait fd dir t) = some A'.sys)
      (hn : A'.sys.ret = some (.status .READY)) (he : c' = { c with place := .top })
  | ready {c : Call} {a : Action δ} (hc : A.calls f = some c) (hpc : ∀ g e, A.sys.pc ≠ .fiber g e)
      (hd : d = .sys a) (hs : CFiber.Ev.step L P K A.sys a = some A'.sys)
      (hpc' : ∃ e, A'.sys.pc = .fiber f e) (hn : A'.sys.ret = some (.status .READY))
      (he : c' = { c with place := .top })

/-- **How a read or a write returns.** -/
inductive Stops (L : Libc γ) (P : StackPool σ) (K : Kernel κ δ) (A : App T γ σ κ) (d : Do δ)
    (A' : App T γ σ κ) (f : Nat) (c' : Call) : CallRet → Prop
  | empty {fd : Int} {t : Int64} (hd : d = .call (.write fd [] t)) (hs : A'.sys = A.sys)
      (he : c' = (Op.write fd [] t).fresh A.sys.r) : Stops L P K A d A' f c' (.count 0)
  | done {c : Call} {r : Except Errno Nat} {n : Nat} (hc : A.calls f = some c)
      (hpc : ∃ e, A.sys.pc = .fiber f e) (hd : d = .transfer r) (hp : c.place = .top)
      (hs : A'.sys = A.sys) (hr : r.toOption.getD 0 ≤ c.room) (ht : (c.answer r).1 = .done n)
      (he : c' = (c.answer r).2) : Stops L P K A d A' f c' (.count n)
  | failed {c : Call} {r : Except Errno Nat} {e : Errno} (hc : A.calls f = some c)
      (hpc : ∃ e, A.sys.pc = .fiber f e) (hd : d = .transfer r) (hp : c.place = .top)
      (hs : A'.sys = A.sys) (hr : r.toOption.getD 0 ≤ c.room) (ht : (c.answer r).1 = .fail e)
      (he : c' = (c.answer r).2) : Stops L P K A d A' f c' (.failed e)
  /-- The wait came back at once. -/
  | refused {t : Int64} {fd : Int} {dir : UInt32} {st : EvStatus} (hc : A.calls f = some c')
      (hpc : ∃ e, A.sys.pc = .fiber f e) (hd : d = .rewait) (hp : c'.place = .ask t)
      (ht : App.target c'.op = some (fd, dir))
      (hs : CFiber.Ev.step L P K A.sys (.wait fd dir t) = some A'.sys)
      (hn : A'.sys.ret = some (.status st)) (hne : st ≠ .READY) :
      Stops L P K A d A' f c' (.wait_failed st (wait_failed A'.sys.r st))
  | woken {a : Action δ} {st : EvStatus} (hc : A.calls f = some c')
      (hpc : ∀ g e, A.sys.pc ≠ .fiber g e) (hd : d = .sys a)
      (hs : CFiber.Ev.step L P K A.sys a = some A'.sys) (hpc' : ∃ e, A'.sys.pc = .fiber f e)
      (hn : A'.sys.ret = some (.status st)) (hne : st ≠ .READY) :
      Stops L P K A d A' f c' (.wait_failed st (wait_failed A'.sys.r st))

/-! ## §2. A step is about one call. -/

namespace App

section
variable {A B A' : App T γ σ κ} {f g : Nat} {c c' : Call} {d : Do δ}

/-- Nothing but the call of fiber `g` changes, and that is for `op`. -/
structure Only (A A' : App T γ σ κ) (g : Nat) (op : Op) : Prop where
  others : ∀ f, f ≠ g → A'.calls f = A.calls f
  self : ∀ c, A'.calls g = some c → c.op = op
  returned : ∀ f c res, A'.returned = some (f, c, res) → f = g ∧ c.op = op

theorem Only.put (hB : B.calls = A.calls) (h : c.op = op) : Only A (B.put g c) g op := by
  refine ⟨?_, ?_, ?_⟩
  · intro f hfg
    show Function.update B.calls g (some c) f = A.calls f
    rw [Function.update_of_ne hfg, hB]
  · intro c' hc'
    have hself : some c = some c' := by simpa [App.put] using hc'
    rw [← Option.some.inj hself]
    exact h
  · intro f c' res hret
    exact absurd hret (by simp [App.put])

theorem Only.leave (hB : B.calls = A.calls) (h : c.op = op) (res : CallRet) :
    Only A (B.leave g c res) g op := by
  refine ⟨?_, ?_, ?_⟩
  · intro f hfg
    show Function.update B.calls g none f = A.calls f
    rw [Function.update_of_ne hfg, hB]
  · intro c' hc'
    exact absurd hc' (by simp [App.leave])
  · intro f c' res' hret
    obtain ⟨rfl, rfl, -⟩ : g = f ∧ c = c' ∧ res = res' := by simpa [App.leave] using hret
    exact ⟨rfl, h⟩

theorem Only.arrive (hB : B.calls = A.calls) (h : c.op = op) (st : EvStatus) :
    Only A (B.arrive g c st) g op := by
  unfold App.arrive
  split
  · exact Only.leave hB h _
  · exact Only.leave hB h _
  · exact Only.leave hB h _
  · split_ifs
    · exact Only.put hB h
    · exact Only.leave hB h _
  · split_ifs
    · exact Only.put hB h
    · exact Only.leave hB h _

theorem Only.settle (hB : B.calls = A.calls) (h : c.op = op) (turn : Turn) :
    Only A (B.settle g c turn) g op := by
  unfold App.settle
  split
  · exact Only.leave hB h _
  · exact Only.put hB h
  · split
    · exact Only.put hB h
    · exact Only.put hB h
    · exact Only.put hB h
  · exact Only.leave hB h _

/-- What `enter` makes of the answer of the reactor. -/
theorem enter_cases {a : Action δ} (h : A.enter L P K g c a = some A') :
    CFiber.Ev.step L P K A.sys a = some A'.sys ∧
      (((∀ st, A'.sys.ret ≠ some (.status st)) ∧
          A' = { A with sys := A'.sys }.put g { c with place := .parked }) ∨
        ∃ st, A'.sys.ret = some (.status st) ∧ A' = { A with sys := A'.sys }.arrive g c st) := by
  have hsys := enter_sys h
  obtain ⟨S, hS, rfl⟩ := Option.map_eq_some_iff.mp h
  refine ⟨hsys, ?_⟩
  cases hret : S.ret with
  | none => exact Or.inl ⟨fun st => by simp [hret], rfl⟩
  | some ret =>
      cases ret with
      | status st => exact Or.inr ⟨st, by simp [hret], by simp⟩
      | _ => exact Or.inl ⟨fun st => by simp [hret], rfl⟩

theorem Only.enter {a : Action δ} (h : A.enter L P K g c a = some A') : Only A A' g c.op := by
  obtain ⟨-, ⟨-, heq⟩ | ⟨st, -, heq⟩⟩ := enter_cases h
  · rw [heq]
    exact Only.put rfl rfl
  · rw [heq]
    have hcalls : ({ A with sys := A'.sys } : App T γ σ κ).calls = A.calls := rfl
    exact Only.arrive hcalls rfl st

/-- A fiber is dispatched in the middle of a call. -/
theorem Only.woken {st : EvStatus}
    (h : A' = ({ A with sys := A'.sys, returned := none } : App T γ σ κ).arrive g c st) :
    Only A A' g c.op := by
  have hcalls : ({ A with sys := A'.sys, returned := none } : App T γ σ κ).calls = A.calls := rfl
  rw [h]
  exact Only.arrive hcalls rfl st

/-- The end of a wait of a read or a write. -/
theorem arrive_transfers (ht : c.op.transfers = true) (st : EvStatus) :
    B.arrive g c st = if st = .READY then B.put g { c with place := .top }
      else B.leave g c (.wait_failed st (wait_failed B.sys.r st)) := by
  unfold App.arrive
  cases hop : c.op with
  | read fd n t => rfl
  | write fd buf t => rfl
  | _ => simp [hop, Op.transfers] at ht

/-- The answer of the system call of a read or a write. -/
theorem settle_transfers (ht : c.op.transfers = true) (turn : Turn) :
    B.settle g c turn = match turn with
      | .done n => B.leave g c (.count n)
      | .retry => B.put g { c with place := .top }
      | .block => B.put g { c with place := .again }
      | .fail e => B.leave g c (.failed e) := by
  cases turn with
  | block =>
      unfold App.settle
      cases hop : c.op with
      | read fd n t => rfl
      | write fd buf t => rfl
      | _ => simp [hop, Op.transfers] at ht
  | _ => rfl

theorem transfer_transfers {r : Except Errno Nat} (ht : c.op.transfers = true)
    (h : A.transfer g c r = some A') :
    r.toOption.getD 0 ≤ c.room ∧ A' = A.settle g (c.answer r).2 (c.answer r).1 := by
  unfold App.transfer at h
  cases hop : c.op with
  | read fd n t =>
      simp only [hop] at h
      split_ifs at h with hr
      refine ⟨by simpa [Call.room, hop] using hr, ?_⟩
      simp only [Call.answer, hop]
      exact (Option.some.inj h).symm
  | write fd buf t =>
      simp only [hop] at h
      split_ifs at h with hr
      refine ⟨by simpa [Call.room, hop] using hr, ?_⟩
      simp only [Call.answer, hop]
      exact (Option.some.inj h).symm
  | _ => simp [hop, Op.transfers] at ht

theorem answer_op (c : Call) (r : Except Errno Nat) : (c.answer r).2.op = c.op := by
  unfold Call.answer
  split <;> rfl

theorem Only.transfer {r : Except Errno Nat} (h : A.transfer g c r = some A') :
    Only A A' g c.op := by
  unfold App.transfer at h
  split at h
  · split_ifs at h
    obtain rfl := Option.some.inj h
    exact Only.settle rfl rfl _
  · split_ifs at h
    obtain rfl := Option.some.inj h
    exact Only.settle rfl rfl _
  · obtain rfl := Option.some.inj h
    exact Only.settle rfl rfl _
  · obtain rfl := Option.some.inj h
    exact Only.settle rfl rfl _
  · exact absurd h (by simp)

theorem Only.begin_call {op : Op} (h : A.begin_call L P K g op = some A') : Only A A' g op := by
  unfold App.begin_call at h
  cases op with
  | wait fd dir t => exact Only.enter h
  | sleep ns => exact Only.enter h
  | wait_async t => exact Only.enter h
  | read fd n t => obtain rfl := Option.some.inj h; exact Only.put rfl rfl
  | write fd buf t =>
      obtain rfl := Option.some.inj h
      dsimp only
      split_ifs
      · exact Only.leave rfl rfl _
      · exact Only.put rfl rfl
  | accept fd => obtain rfl := Option.some.inj h; exact Only.put rfl rfl
  | connect fd => obtain rfl := Option.some.inj h; exact Only.put rfl rfl

theorem Only.resume_call (h : A.resume_call L P K g c d = some A') : Only A A' g c.op := by
  unfold App.resume_call at h
  split at h
  · exact Only.transfer h
  · obtain rfl := Option.some.inj h; exact Only.put rfl rfl
  · obtain ⟨⟨fd, dir⟩, -, h⟩ := Option.bind_eq_some_iff.mp h
    exact Only.enter h
  · obtain rfl := Option.some.inj h; exact Only.leave rfl rfl _
  · obtain rfl := Option.some.inj h; exact Only.leave rfl rfl _
  · exact absurd h (by simp)

/-! ## §3. Steps. -/

theorem loop_cases {a : Action δ} (h : A.loop L P K a = some A') :
    CFiber.Ev.step L P K A.sys a = some A'.sys ∧
      ((A'.calls = A.calls ∧ A'.returned = none ∧ ∀ f e st, A'.sys.pc = .fiber f e →
          A'.sys.ret = some (.status st) → A.calls f = none) ∨
        ∃ g e st c, A'.sys.pc = .fiber g e ∧ A'.sys.ret = some (.status st) ∧ A.calls g = some c ∧
          A' = ({ A with sys := A'.sys, returned := none } : App T γ σ κ).arrive g c st) := by
  have hsys := loop_sys h
  refine ⟨hsys, ?_⟩
  obtain ⟨S, hS, rfl⟩ := Option.map_eq_some_iff.mp h
  dsimp only
  split
  · rename_i g e st hpc hret
    cases hc : A.calls g with
    | none =>
        left
        refine ⟨rfl, rfl, ?_⟩
        intro f e' st' hpc' _
        obtain ⟨rfl, -⟩ := Pc.fiber.inj (hpc.symm.trans hpc')
        exact hc
    | some c =>
        right
        exact ⟨g, e, st, c, by simpa using hpc, by simpa using hret, hc, by simp⟩
  · rename_i hother
    left
    refine ⟨rfl, rfl, ?_⟩
    intro f e st hpc hret
    exact absurd hret (hother f e st hpc)

/-- **What a step does to the calls.** -/
theorem step_cases (h : A.step L P K d = some A') :
    (∃ a, d = .sys a ∧ CFiber.Ev.step L P K A.sys a = some A'.sys ∧ A'.calls = A.calls ∧
      A'.returned = none ∧ ∀ f e st, (∀ e', A.sys.pc ≠ .fiber f e') → A'.sys.pc = .fiber f e →
        A'.sys.ret = some (.status st) → A.calls f = none) ∨
    (∃ a g e st c, d = .sys a ∧ (∀ g e, A.sys.pc ≠ .fiber g e) ∧
      CFiber.Ev.step L P K A.sys a = some A'.sys ∧ A'.sys.pc = .fiber g e ∧
      A'.sys.ret = some (.status st) ∧ A.calls g = some c ∧
      A' = ({ A with sys := A'.sys, returned := none } : App T γ σ κ).arrive g c st) ∨
    (∃ op g e, d = .call op ∧ A.sys.pc = .fiber g e ∧ A.calls g = none ∧
      A.begin_call L P K g op = some A') ∨
    ∃ g e c, A.sys.pc = .fiber g e ∧ A.calls g = some c ∧ (∀ a, d ≠ .sys a) ∧
      A.resume_call L P K g c d = some A' := by
  unfold App.step at h
  split at h
  · rename_i a
    split_ifs at h with hb hf
    · -- a foreign step does not move control
      obtain ⟨S, hS, rfl⟩ := Option.map_eq_some_iff.mp h
      refine Or.inl ⟨a, rfl, hS, rfl, rfl, ?_⟩
      intro f e st hno hpc _
      rw [(foreign_pc hf hS).1] at hpc
      exact absurd hpc (hno e)
    · split at h
      · rename_i f e hpc
        split_ifs at h with hc
        obtain ⟨S, hS, rfl⟩ := Option.map_eq_some_iff.mp h
        refine Or.inl ⟨a, rfl, hS, rfl, rfl, ?_⟩
        intro g e' st hno hpc' _
        have hflow := step_flow (by simpa using hf) hS
        rw [hpc, hpc'] at hflow
        -- a fiber's step stays with the fiber or goes back to the loop
        rcases hflow with heq | heq
        · obtain ⟨rfl, -⟩ := Pc.fiber.inj heq
          exact hc
        · exact absurd heq (by simp)
      · rename_i hno
        have hno' : ∀ g e, A.sys.pc ≠ .fiber g e := fun g e => hno g e
        obtain ⟨hs, ⟨hcalls, hret, hnone⟩ | ⟨g, e, st, c, hpc, hret, hc, heq⟩⟩ := loop_cases h
        · exact Or.inl ⟨a, rfl, hs, hcalls, hret, fun f e st _ => hnone f e st⟩
        · exact Or.inr (Or.inl ⟨a, g, e, st, c, rfl, hno', hs, hpc, hret, hc, heq⟩)
  · rename_i op f e hpc
    split_ifs at h with hc
    exact Or.inr (Or.inr (Or.inl ⟨op, f, e, rfl, hpc, hc, h⟩))
  · rename_i f e hd _ hpc
    obtain ⟨c, hc, h⟩ := Option.bind_eq_some_iff.mp h
    exact Or.inr (Or.inr (Or.inr ⟨f, e, c, hpc, hc, fun a => hd a, h⟩))
  · exact absurd h (by simp)

/-- A step at a fiber leaves control there, or with the loop. -/
theorem step_pc {a : Action δ} {S : Sys T γ σ κ} {e : Option Nat} (hpc : A.sys.pc = .fiber g e)
    (hs : CFiber.Ev.step L P K A.sys a = some S) (hfg : f ≠ g) : ∀ e', S.pc ≠ .fiber f e' := by
  intro e' hpc'
  by_cases hf : a.foreign = true
  · have hsame := (foreign_pc hf hs).1
    rw [hpc, hpc'] at hsame
    exact hfg (Pc.fiber.inj hsame).1
  · have hflow := step_flow (by simpa using hf) hs
    rw [hpc, hpc'] at hflow
    rcases hflow with heq | heq
    · exact hfg (Pc.fiber.inj heq).1
    · exact absurd heq (by simp)

theorem enter_pc {a : Action δ} {e : Option Nat} (hpc : A.sys.pc = .fiber g e)
    (h : A.enter L P K g c a = some A') (hfg : f ≠ g) : ∀ e', A'.sys.pc ≠ .fiber f e' :=
  step_pc hpc (enter_cases h).1 hfg

theorem pc_of_sys {e : Option Nat} (hpc : A.sys.pc = .fiber g e) (hs : A'.sys = A.sys)
    (hfg : f ≠ g) : ∀ e', A'.sys.pc ≠ .fiber f e' := by
  intro e' hpc'
  rw [hs, hpc] at hpc'
  exact hfg (Pc.fiber.inj hpc').1.symm

theorem begin_call_pc {op : Op} {e : Option Nat} (hpc : A.sys.pc = .fiber g e)
    (h : A.begin_call L P K g op = some A') (hfg : f ≠ g) : ∀ e', A'.sys.pc ≠ .fiber f e' := by
  unfold App.begin_call at h
  cases op with
  | wait fd dir t => exact enter_pc hpc h hfg
  | sleep ns => exact enter_pc hpc h hfg
  | wait_async t => exact enter_pc hpc h hfg
  | write fd buf t =>
      obtain rfl := Option.some.inj h
      apply pc_of_sys hpc _ hfg
      dsimp only
      split_ifs <;> rfl
  | _ => obtain rfl := Option.some.inj h; exact pc_of_sys hpc rfl hfg

theorem resume_call_pc {e : Option Nat} (hpc : A.sys.pc = .fiber g e)
    (h : A.resume_call L P K g c d = some A') (hfg : f ≠ g) : ∀ e', A'.sys.pc ≠ .fiber f e' := by
  unfold App.resume_call at h
  split at h
  · exact pc_of_sys hpc (transfer_sys h) hfg
  · obtain rfl := Option.some.inj h; exact pc_of_sys hpc rfl hfg
  · obtain ⟨⟨fd, dir⟩, -, h⟩ := Option.bind_eq_some_iff.mp h
    exact enter_pc hpc h hfg
  · obtain rfl := Option.some.inj h; exact pc_of_sys hpc rfl hfg
  · obtain rfl := Option.some.inj h; exact pc_of_sys hpc rfl hfg
  · exact absurd h (by simp)

/-- A call that a step at another fiber `g` does not touch. -/
theorem Only.goes {op : Op} {e : Option Nat} (h : Only A A' g op) (hfg : f ≠ g)
    (hpc : A.sys.pc = .fiber g e) (hpc' : ∀ e, A'.sys.pc ≠ .fiber f e)
    (hc : A'.calls f = some c') : Goes L P K A d A' f c' := by
  rw [h.others f hfg] at hc
  refine .same hc ?_ ?_
  · intro e' he'
    rw [hpc] at he'
    exact absurd (Pc.fiber.inj he').1.symm hfg
  · intro _ e' st he'
    exact absurd he' (hpc' e')

theorem put_self (h : (A.put f c).calls f = some c') : c' = c := by
  have hself : some c = some c' := by simpa [App.put] using h
  exact (Option.some.inj hself).symm

theorem leave_self {res : CallRet} : (A.leave f c res).calls f = none := by
  simp [App.leave]

/-- The call of fiber `f` is made. -/
theorem begin_call_goes {op : Op} {e : Option Nat} (hpc : A.sys.pc = .fiber f e)
    (hnone : A.calls f = none) (h : A.begin_call L P K f op = some A')
    (hc : A'.calls f = some c') (ht : c'.op.transfers = true) :
    Goes L P K A (.call op) A' f c' := by
  obtain rfl := (Only.begin_call h).self c' hc
  unfold App.begin_call at h
  cases hop : c'.op with
  | read fd n t =>
      simp only [hop] at h
      obtain rfl := Option.some.inj h
      have hself := put_self hc
      exact .made hnone ⟨e, hpc⟩ (by rw [hop]) rfl (by simp [hop]) (by rw [hop]; exact hself)
  | write fd buf t =>
      simp only [hop] at h
      obtain rfl := Option.some.inj h
      split_ifs at hc with hbuf
      · exact absurd (leave_self.symm.trans hc) (by simp)
      · have hself := put_self hc
        refine .made hnone ⟨e, hpc⟩ (by rw [hop]) ?_ ?_ (by rw [hop]; exact hself)
        · rw [if_neg hbuf]
          rfl
        · intro fd' t' heq
          rw [hop] at heq
          exact hbuf (Op.write.inj heq).2.1
  | _ => simp [hop, Op.transfers] at ht

/-- The call of fiber `f` goes on. -/
theorem resume_call_goes {e : Option Nat} (hpc : A.sys.pc = .fiber f e) (hc₀ : A.calls f = some c)
    (h : A.resume_call L P K f c d = some A') (hc : A'.calls f = some c')
    (ht : c'.op.transfers = true) : Goes L P K A d A' f c' := by
  have hop := (Only.resume_call h).self c' hc
  rw [hop] at ht
  unfold App.resume_call at h
  split at h
  · rename_i r hp
    obtain ⟨hr, rfl⟩ := transfer_transfers ht h
    rw [← answer_op c r] at ht
    rw [settle_transfers ht] at hc
    cases hturn : (c.answer r).1 with
    | done n => rw [hturn] at hc; exact absurd (leave_self.symm.trans hc) (by simp)
    | retry => rw [hturn] at hc; exact .again hc₀ ⟨e, hpc⟩ rfl hp (settle_sys _ _ _ _) hr hturn (put_self hc)
    | block =>
        rw [hturn] at hc
        exact .blocked hc₀ ⟨e, hpc⟩ rfl hp (settle_sys _ _ _ _) hr hturn (put_self hc)
    | fail e' => rw [hturn] at hc; exact absurd (leave_self.symm.trans hc) (by simp)
  · rename_i hp
    obtain rfl := Option.some.inj h
    exact .looked hc₀ ⟨e, hpc⟩ rfl hp rfl (put_self hc)
  · rename_i t hp
    obtain ⟨⟨fd, dir⟩, htarget, h⟩ := Option.bind_eq_some_iff.mp h
    obtain ⟨hs, ⟨hn, heq⟩ | ⟨st, hn, heq⟩⟩ := enter_cases h
    · rw [heq] at hc
      exact .parked hc₀ ⟨e, hpc⟩ rfl hp htarget hs hn (put_self hc)
    · rw [heq, arrive_transfers ht] at hc
      split_ifs at hc with hst
      · rw [hst] at hn
        exact .returned hc₀ ⟨e, hpc⟩ rfl hp htarget hs hn (put_self hc)
      · exact absurd (leave_self.symm.trans hc) (by simp)
  · obtain rfl := Option.some.inj h
    exact absurd (leave_self.symm.trans hc) (by simp)
  · obtain rfl := Option.some.inj h
    exact absurd (leave_self.symm.trans hc) (by simp)
  · exact absurd h (by simp)

/-- **A read or a write comes to where it is.** -/
theorem step_goes (h : A.step L P K d = some A') (hc : A'.calls f = some c')
    (ht : c'.op.transfers = true) : Goes L P K A d A' f c' := by
  rcases step_cases h with ⟨a, rfl, hs, hcalls, -, hnone⟩ |
    ⟨a, g, e, st, c, rfl, hno, hs, hpc, hret, hg, heq⟩ | ⟨op, g, e, rfl, hpc, hg, hbegin⟩ |
    ⟨g, e, c, hpc, hg, -, hresume⟩
  · rw [hcalls] at hc
    refine .same hc (fun _ _ => ⟨a, rfl⟩) ?_
    intro hno e st hpc hret
    exact absurd ((hnone f e st hno hpc hret).symm.trans hc) (by simp)
  · by_cases hfg : f = g
    · subst hfg
      rw [(Only.woken heq).self c' hc] at ht
      rw [heq, arrive_transfers ht] at hc
      split_ifs at hc with hst
      · rw [hst] at hret
        exact .ready hg hno rfl hs ⟨e, hpc⟩ hret (put_self hc)
      · exact absurd (leave_self.symm.trans hc) (by simp)
    · rw [(Only.woken heq).others f hfg] at hc
      refine .same hc (fun e' he' => absurd he' (hno f e')) ?_
      intro _ e' st' hpc'
      exact absurd (Pc.fiber.inj (hpc.symm.trans hpc')).1.symm hfg
  · by_cases hfg : f = g
    · subst hfg
      exact begin_call_goes hpc hg hbegin hc ht
    · exact (Only.begin_call hbegin).goes hfg hpc (begin_call_pc hpc hbegin hfg) hc
  · by_cases hfg : f = g
    · subst hfg
      exact resume_call_goes hpc hg hresume hc ht
    · exact (Only.resume_call hresume).goes hfg hpc (resume_call_pc hpc hresume hfg) hc

/-- What the last step handed back. -/
theorem leave_returned {res res' : CallRet} (h : (A.leave g c res).returned = some (f, c', res')) :
    g = f ∧ c = c' ∧ res = res' := by
  simpa [App.leave] using h

theorem put_returned {res : CallRet} (h : (A.put g c).returned = some (f, c', res)) : False := by
  simp [App.put] at h

/-- A call returns at once, or is made. -/
theorem begin_call_stops {op : Op} {res : CallRet} (h : A.begin_call L P K g op = some A')
    (hret : A'.returned = some (f, c', res)) (ht : c'.op.transfers = true) :
    Stops L P K A (.call op) A' f c' res := by
  obtain ⟨-, rfl⟩ := (Only.begin_call h).returned f c' res hret
  unfold App.begin_call at h
  cases hop : c'.op with
  | read fd n t =>
      simp only [hop] at h
      obtain rfl := Option.some.inj h
      exact (put_returned hret).elim
  | write fd buf t =>
      simp only [hop] at h
      obtain rfl := Option.some.inj h
      split_ifs at hret with hbuf
      · obtain ⟨-, hc, rfl⟩ := leave_returned hret
        subst hbuf
        refine .empty rfl ?_ hc.symm
        rw [if_pos rfl]
        rfl
      · exact (put_returned hret).elim
  | _ => simp [hop, Op.transfers] at ht

/-- The call of fiber `g` ends. -/
theorem resume_call_stops {res : CallRet} {e : Option Nat} (hpc : A.sys.pc = .fiber g e)
    (hc₀ : A.calls g = some c) (h : A.resume_call L P K g c d = some A')
    (hret : A'.returned = some (f, c', res)) (ht : c'.op.transfers = true)
    (hsock : c.op.transfers = true → c.place ≠ .sockopt) : Stops L P K A d A' f c' res := by
  obtain ⟨rfl, hop⟩ := (Only.resume_call h).returned f c' res hret
  rw [hop] at ht
  unfold App.resume_call at h
  split at h
  · rename_i r hp
    obtain ⟨hr, rfl⟩ := transfer_transfers ht h
    have hsys := settle_sys A f (c.answer r).2 (c.answer r).1
    rw [← answer_op c r] at ht
    rw [settle_transfers ht] at hret
    cases hturn : (c.answer r).1 with
    | done n =>
        rw [hturn] at hret hsys
        obtain ⟨-, hc, rfl⟩ := leave_returned hret
        exact .done hc₀ ⟨e, hpc⟩ rfl hp hsys hr hturn hc.symm
    | retry => rw [hturn] at hret; exact (put_returned hret).elim
    | block => rw [hturn] at hret; exact (put_returned hret).elim
    | fail e' =>
        rw [hturn] at hret hsys
        obtain ⟨-, hc, rfl⟩ := leave_returned hret
        exact .failed hc₀ ⟨e, hpc⟩ rfl hp hsys hr hturn hc.symm
  · obtain rfl := Option.some.inj h
    exact (put_returned hret).elim
  · rename_i t hp
    obtain ⟨⟨fd, dir⟩, htarget, h⟩ := Option.bind_eq_some_iff.mp h
    obtain ⟨hs, ⟨hn, heq⟩ | ⟨st, hn, heq⟩⟩ := enter_cases h
    · rw [heq] at hret
      exact (put_returned hret).elim
    · rw [heq, arrive_transfers ht] at hret
      split_ifs at hret with hst
      · exact (put_returned hret).elim
      · obtain ⟨-, rfl, rfl⟩ := leave_returned hret
        exact .refused hc₀ ⟨e, hpc⟩ rfl hp htarget hs hn hst
  · rename_i hp
    exact absurd hp (hsock ht)
  · rename_i hp
    exact absurd hp (hsock ht)
  · exact absurd h (by simp)

/-- **A read or a write returns.**  No read or write is at `getsockopt`. -/
theorem step_stops {res : CallRet} (h : A.step L P K d = some A')
    (hret : A'.returned = some (f, c', res)) (ht : c'.op.transfers = true)
    (hsock : ∀ f c, A.calls f = some c → c.op.transfers = true → c.place ≠ .sockopt) :
    Stops L P K A d A' f c' res := by
  rcases step_cases h with ⟨a, rfl, hs, -, hnone, -⟩ |
    ⟨a, g, e, st, c, rfl, hno, hs, hpc, hst, hg, heq⟩ | ⟨op, g, e, rfl, hpc, hg, hbegin⟩ |
    ⟨g, e, c, hpc, hg, -, hresume⟩
  · exact absurd (hnone.symm.trans hret) (by simp)
  · obtain ⟨rfl, hop⟩ := (Only.woken heq).returned f c' res hret
    rw [hop] at ht
    rw [heq, arrive_transfers ht] at hret
    split_ifs at hret with hready
    · exact (put_returned hret).elim
    · obtain ⟨-, rfl, rfl⟩ := leave_returned hret
      exact .woken hg hno rfl hs ⟨e, hpc⟩ hst hready
  · exact begin_call_stops hbegin hret ht
  · exact resume_call_stops hpc hg hresume hret ht (hsock g c hg)

end

end App

end CFiber.Ev
