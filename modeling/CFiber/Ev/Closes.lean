/-
  CFiber.Ev.Closes — `cfiber_ev_close` and the fiber that waits on the descriptor.

  A fiber that entered `cfiber_ev_wait(fd)` is parked, or is back on the ready queue and has not
  run.  `cfiber_ev_close` cancels it in the first case only: in the second its wait is over, and
  keeps the status that ended it.

  Main results:

    • `InWait.close`          — the status of the wait is settled when the close returns;
    • `Resolved.app_step`     — nothing changes it until the fiber runs, and its call ends with it;
    • `close_ends_wait`       — what the waiter comes back with, over any run;
    • `ready_waiter_reads_on` — a waiter that was ready reads from the descriptor that took the
                                closed one's number.
-/
import CFiber.Ev.Resumptions

namespace CFiber.Ev

open CFiber.Base CFiber.Memory

variable {T : Target} {γ σ κ δ : Type}
variable {L : Libc γ} {P : StackPool σ} {K : Kernel κ δ}
variable {out : γ → List Region} {good : γ → Prop}

/-! ## §1. Waiters. -/

/-- `f` entered `cfiber_ev_wait(fd)` and has not come back. -/
structure InWait (S : Sys T γ σ κ) (f : Nat) (fd : Int) : Prop where
  state : S.r.mem.state f = .FB_PARKED ∨ S.r.mem.state f = .FB_READY
  wait_fd : S.r.mem.wait_fd f = fd
  valid : 0 ≤ fd

/-- What the wait of `f` comes to when another fiber closes its descriptor now. -/
def close_status (S : Sys T γ σ κ) (f : Nat) : EvStatus :=
  if S.r.mem.state f = .FB_PARKED then .CANCELLED else S.r.mem.wait_status f

/-- Readiness put the waiter `f` on the ready queue, and it has not run. -/
def Ripe (S : Sys T γ σ κ) (f : Nat) : Prop :=
  S.r.mem.state f = .FB_READY ∧ S.r.mem.wait_status f = .READY

/-- What call `c` returns when its wait fails with `st`. -/
def Call.over (s : Reactor T γ σ κ) (c : Call) (st : EvStatus) : CallRet :=
  match c.op with
  | .wait _ _ _ | .sleep _ | .wait_async _ => .status st
  | _ => .wait_failed st (wait_failed s st)

/-- The wait of `f` came back with `st`, and its call `c` returned that. -/
structure Over (A : App T γ σ κ) (f : Nat) (c : Call) (st : EvStatus) : Prop where
  status : A.sys.ret = some (.status st)
  left : A.calls f = none
  returned : A.returned = some (f, c, c.over A.sys.r st)

section
variable {S S' : Sys T γ σ κ} {q q' : List Nat} {f : Nat} {fd : Int} {st : EvStatus}

theorem InWait.close_status_ready (h : InWait S f fd) :
    close_status S f = .READY ↔ Ripe S f := by
  unfold close_status Ripe
  rcases h.state with hst | hst
  · simp [hst]
  · simp [hst]

theorem close_pc (h : step L P K S (.close fd) = some S') : ∃ g e, S.pc = .fiber g e := by
  cases hpc : S.pc with
  | fiber g e => exact ⟨g, e, rfl⟩
  | _ => simp [step, hpc] at h

/-- **The close** settles the wait. -/
theorem InWait.close (hok : Ok out good S q) (h : InWait S f fd) {m : Move}
    (hd : Does P K out good S (.close fd) S' m q q') {g : Nat} {e : Option Nat}
    (hpc : S.pc = .fiber g e) : Resolved S' f (close_status S f) := by
  have hvalid := h.valid
  rcases h.state with hst | hst
  · -- parked: the record of the descriptor leads to it
    have hholder : fd_owner_get S.r fd = some f := hok.core.holder ⟨hst, h.wait_fd⟩ (by omega)
    have hsource : source S (.close fd : Action δ) = some (f, .CANCELLED) := by
      simp [source, hpc, hholder, h.wait_fd]
    have hdec := (Undecided.step hok hd (n := (view S.r f).enqueued) ⟨hst, rfl⟩).2 .CANCELLED
      (brings_iff.mpr hsource)
    rw [close_status, if_pos hst]
    exact hdec.toResolved
  · -- ready: the close finds nothing to cancel
    have hlive : f ∈ S.alive := hok.core.mem_live (by simp [hst])
    have hidle := hok.core.waits.idle f hlive (by rw [h.wait_fd]; omega)
    have hctx : (view S.r f).ctx = .wait := hidle.1
    have hres : Resolved S f (S.r.mem.wait_status f) :=
      ⟨hst, rfl, by rw [hctx]; simp, by rw [hctx]; simp⟩
    rw [close_status, if_neg (by simp [hst])]
    apply (hres.step hok hd _).1
    intro hm
    exact (hd.dispatch_pc hok hm).2 g e hpc

/-- A wait that is over was ended by something other than an error. -/
theorem InWait.close_status_error (hok : Ok out good S q) (hcomes : Comes S) (h : InWait S f fd) :
    close_status S f ≠ .ERROR := by
  unfold close_status
  split_ifs with hst
  · simp
  · rcases h.state with hst' | hst'
    · exact absurd hst' hst
    · exact hcomes f (hok.core.mem_live (by simp [hst']))

end

/-! ## §2. The call of the waiter. -/

section
variable {A A' : App T γ σ κ} {q : List Nat} {d : Do δ} {f : Nat} {st : EvStatus}

/-- A wait that fails ends its call. -/
theorem App.arrive_over {c : Call} (hst : st ≠ .READY) :
    A.arrive f c st = A.leave f c (c.over A.sys.r st) := by
  unfold App.arrive Call.over
  cases c.op <;> simp [hst]

theorem Over.of_arrive {c : Call} {B : App T γ σ κ} (hret : A'.sys.ret = some (.status st))
    (heq : A' = ({ B with sys := A'.sys, returned := none } : App T γ σ κ).arrive f c st)
    (hst : st ≠ .READY) : Over A' f c st := by
  rw [App.arrive_over hst] at heq
  refine ⟨hret, ?_, ?_⟩
  · rw [heq]
    exact App.leave_self
  · rw [heq]
    rfl

/-- A step of the system that is no call, and the calls when a fiber takes it. -/
theorem App.sys_step {a : Action δ} (hs : A.step L P K (.sys a) = some A') :
    CFiber.Ev.step L P K A.sys a = some A'.sys ∧
      ∀ g e, A.sys.pc = .fiber g e → A'.calls = A.calls := by
  rcases App.step_cases hs with ⟨_, hd, hstep, hcalls, -⟩ | ⟨_, _, _, _, _, hd, hno, hstep, -⟩ |
    ⟨_, _, _, hd, -⟩ | ⟨_, _, _, -, -, hd, -⟩
  · obtain rfl := Do.sys.inj hd
    exact ⟨hstep, fun _ _ _ => hcalls⟩
  · obtain rfl := Do.sys.inj hd
    exact ⟨hstep, fun g e hpc => absurd hpc (hno g e)⟩
  · exact absurd hd (by simp)
  · exact absurd rfl (hd a)

/-- **A step and the call of a fiber whose wait is over**: it waits on, or the fiber comes back into
its call with the status of the wait. -/
theorem Resolved.app_step (H : LibcOk T L out good) (hok : Ok out good A.sys q)
    (h : Resolved A.sys f st) (hs : A.step L P K d = some A') :
    (A'.sys.r.mem.state f ≠ .FB_RUNNING ∧ Resolved A'.sys f st ∧ A'.calls f = A.calls f) ∨
    (A'.sys.r.mem.state f = .FB_RUNNING ∧ A'.sys.ret = some (.status st) ∧
      ∀ c, A.calls f = some c →
        A' = ({ A with sys := A'.sys, returned := none } : App T γ σ κ).arrive f c st) := by
  have hready : A.sys.r.mem.state f = .FB_READY := h.ready
  -- a fiber in control is another one
  have hother : ∀ g e, A.sys.pc = .fiber g e → f ≠ g := by
    rintro g e hpc rfl
    exact absurd (hready.symm.trans (running_of_pc hok hpc)) (by simp)
  have hstays : ∀ {S : Sys T γ σ κ}, Resolved S f st → S.r.mem.state f ≠ .FB_RUNNING := by
    intro S hres hrun
    exact absurd (Eq.trans (Eq.symm hres.ready) hrun) (by simp)
  -- a step that is not taken in the loop
  have hfiber : ∀ g e, A.sys.pc = .fiber g e → Resolved A'.sys f st := by
    intro g e hpc
    rcases App.step_sys hs with hsame | ⟨a, hstep, -⟩
    · rw [hsame]
      exact h
    · obtain ⟨m, q', hd⟩ := step_does H hok hstep
      apply (h.step hok hd _).1
      intro hm
      exact (hd.dispatch_pc hok hm).2 g e hpc
  rcases App.step_cases hs with ⟨a, rfl, hstep, hcalls, -, hnone⟩ |
    ⟨a, g, e, st', c, rfl, hno, hstep, hpc, hret, hc, heq⟩ | ⟨op, g, e, rfl, hpc, -, hbegin⟩ |
    ⟨g, e, c, hpc, -, -, hresume⟩
  · obtain ⟨m, q', hd⟩ := step_does H hok hstep
    by_cases hm : m = .dispatch f
    · right
      obtain ⟨hret, hrun, -, -⟩ := h.dispatch hd hm
      obtain ⟨⟨e, hpc'⟩, hno⟩ := hd.dispatch_pc hok hm
      refine ⟨hrun, hret, ?_⟩
      intro c hc
      exact absurd ((hnone f e st (fun e' => hno f e') hpc' hret).symm.trans hc) (by simp)
    · left
      have hres := (h.step hok hd hm).1
      exact ⟨hstays hres, hres, by rw [hcalls]⟩
  · obtain ⟨m, q', hd⟩ := step_does H hok hstep
    by_cases hm : m = .dispatch f
    · right
      obtain ⟨hret', hrun, -, -⟩ := h.dispatch hd hm
      obtain ⟨⟨e', hpc'⟩, -⟩ := hd.dispatch_pc hok hm
      obtain ⟨rfl, -⟩ := Pc.fiber.inj (hpc.symm.trans hpc')
      obtain rfl : st' = st := by simpa using hret.symm.trans hret'
      refine ⟨hrun, hret', ?_⟩
      intro c' hc'
      obtain rfl := Option.some.inj (hc.symm.trans hc')
      exact heq
    · left
      have hres := (h.step hok hd hm).1
      have hfg : f ≠ g := by
        rintro rfl
        exact hstays hres (running_of_pc hd.ok hpc)
      exact ⟨hstays hres, hres, (App.Only.woken heq).others f hfg⟩
  · left
    have hres := hfiber g e hpc
    exact ⟨hstays hres, hres, (App.Only.begin_call hbegin).others f (hother g e hpc)⟩
  · left
    have hres := hfiber g e hpc
    exact ⟨hstays hres, hres, (App.Only.resume_call hresume).others f (hother g e hpc)⟩

/-- **Runs** in which the fiber does not run. -/
theorem Resolved.app_run (H : LibcOk T L out good) (hok : ∃ q, Ok out good A.sys q)
    (h : Resolved A.sys f st) {ds : List (Do δ)} (hrun : exec (App.step L P K) A ds = some A')
    (hrest : Along (App.step L P K) (fun A => A.sys.r.mem.state f ≠ .FB_RUNNING) A ds) :
    (∃ q, Ok out good A'.sys q) ∧ Resolved A'.sys f st ∧ A'.calls f = A.calls f := by
  have hinv : (∃ q, Ok out good A'.sys q) ∧ (A'.sys.r.mem.state f ≠ .FB_RUNNING →
      Resolved A'.sys f st ∧ A'.calls f = A.calls f) := by
    refine (exec_inv_along (fun B : App T γ σ κ => (∃ q, Ok out good B.sys q) ∧
      (B.sys.r.mem.state f ≠ .FB_RUNNING → Resolved B.sys f st ∧ B.calls f = A.calls f))
      _ ?_ ⟨hok, fun _ => ⟨h, rfl⟩⟩ hrest hrun).1
    rintro B d B' ⟨⟨q, hokB⟩, hB⟩ hP hs
    obtain ⟨hres, hcalls⟩ := hB hP
    refine ⟨?_, ?_⟩
    · rcases App.step_sys hs with hsame | ⟨a, hstep, -⟩
      · exact ⟨q, by rw [hsame]; exact hokB⟩
      · obtain ⟨m, q', hd⟩ := step_does H hokB hstep
        exact ⟨q', hd.ok⟩
    · intro hnot
      rcases hres.app_step H hokB hs with ⟨-, hres', hcalls'⟩ | ⟨hrunning, -⟩
      · exact ⟨hres', hcalls'.trans hcalls⟩
      · exact absurd hrunning hnot
  exact ⟨hinv.1, hinv.2 (exec_inv_along (fun _ : App T γ σ κ => True) _
    (fun _ _ _ _ _ _ => trivial) trivial hrest hrun).2⟩

end

/-! ## §3. What the waiter comes back with. -/

/-- **Close ends the wait.**  Fiber `f` is in `cfiber_ev_wait(fd)`, in its call `c`, when another
fiber closes `fd`, and the next step to run `f` leads to `A₃`.  If `f` was parked, its wait returns
`CANCELLED`.  If a timeout or a cancel had put it on the ready queue, its wait returns that.  In
both cases its call is over.  Only if readiness had put it there does its wait return `READY`. -/
theorem close_ends_wait (H : LibcOk T L out good) {r : Reactor T γ σ κ} (hr : Fresh T out good r)
    {before after : List (Do δ)} {d : Do δ} {A A₁ A₂ A₃ : App T γ σ κ} {f : Nat} {fd : Int}
    {c : Call}
    (hrun : exec (App.step L P K) (App.boot r) before = some A) (hc : A.calls f = some c)
    (hwait : InWait A.sys f fd) (hclose : A.step L P K (.sys (.close fd)) = some A₁)
    (hafter : exec (App.step L P K) A₁ after = some A₂)
    (hrest : Along (App.step L P K) (fun A => A.sys.r.mem.state f ≠ .FB_RUNNING) A₁ after)
    (hback : A₂.step L P K d = some A₃) (hruns : A₃.sys.r.mem.state f = .FB_RUNNING) :
    (A.sys.r.mem.state f = .FB_PARKED → Over A₃ f c .CANCELLED) ∧
    (A.sys.r.mem.state f = .FB_READY → A.sys.r.mem.wait_status f ≠ .READY →
      (A.sys.r.mem.wait_status f = .TIMEOUT ∨ A.sys.r.mem.wait_status f = .CANCELLED) ∧
        Over A₃ f c (A.sys.r.mem.wait_status f)) ∧
    (A₃.sys.ret = some (.status .READY) ↔ Ripe A.sys f) := by
  obtain ⟨q, hw⟩ := exec_writing H hr hrun
  obtain ⟨hstep, hcalls⟩ := App.sys_step hclose
  obtain ⟨g, e, hpc⟩ := close_pc hstep
  obtain ⟨m, q₁, hd⟩ := step_does H hw.ok hstep
  -- the status is settled, and stays so until `f` runs
  obtain ⟨⟨q₂, hok₂⟩, hres₂, hcalls₂⟩ :=
    (hwait.close hw.ok hd hpc).app_run H ⟨q₁, hd.ok⟩ hafter hrest
  have hc₂ : A₂.calls f = some c := by rw [hcalls₂, hcalls g e hpc, hc]
  rcases hres₂.app_step H hok₂ hback with ⟨hnot, -⟩ | ⟨-, hret, harrive⟩
  · exact absurd hruns hnot
  have hover := Over.of_arrive hret (harrive c hc₂)
  refine ⟨?_, ?_, ?_⟩
  · intro hst
    have hstatus : close_status A.sys f = .CANCELLED := if_pos hst
    rw [hstatus] at hover
    exact hover (by simp)
  · intro hst hne
    have hstatus : close_status A.sys f = A.sys.r.mem.wait_status f := if_neg (by simp [hst])
    have herr := hwait.close_status_error hw.ok hw.comes
    rw [hstatus] at hover herr
    refine ⟨?_, hover hne⟩
    cases hw : A.sys.r.mem.wait_status f with
    | READY => exact absurd hw hne
    | ERROR => exact absurd hw herr
    | TIMEOUT => exact Or.inl rfl
    | CANCELLED => exact Or.inr rfl
  · rw [← hwait.close_status_ready, hret]
    simp

/-- Four states of a run: before `3` is closed, after it, and around the step that runs `192`. -/
structure Closing where
  before : App lp64 (Nat × List Region) (Nat × Nat) Epoll
  closed : App lp64 (Nat × List Region) (Nat × Nat) Epoll
  later : App lp64 (Nat × List Region) (Nat × Nat) Epoll
  back : App lp64 (Nat × List Region) (Nat × Nat) Epoll

def closing (before after : List (Do Choice)) : Option Closing :=
  start.bind fun r =>
    (exec (App.step bumpLibc roomyStacks epoll) (App.boot r) before).bind fun A =>
    (A.step bumpLibc roomyStacks epoll (.sys (.close 3))).bind fun A₁ =>
    (exec (App.step bumpLibc roomyStacks epoll) A₁ after).bind fun A₂ =>
    (A₂.step bumpLibc roomyStacks epoll (.sys .turn)).bind fun A₃ =>
    if Along (App.step bumpLibc roomyStacks epoll)
        (fun A => A.sys.r.mem.state 192 ≠ .FB_RUNNING) A₁ after then
      some ⟨A, A₁, A₂, A₃⟩
    else none

theorem closing_some {before after : List (Do Choice)} {X : Closing}
    (h : closing before after = some X) : ∃ r, start = some r ∧
      exec (App.step bumpLibc roomyStacks epoll) (App.boot r) before = some X.before ∧
      X.before.step bumpLibc roomyStacks epoll (.sys (.close 3)) = some X.closed ∧
      exec (App.step bumpLibc roomyStacks epoll) X.closed after = some X.later ∧
      Along (App.step bumpLibc roomyStacks epoll)
        (fun A => A.sys.r.mem.state 192 ≠ .FB_RUNNING) X.closed after ∧
      X.later.step bumpLibc roomyStacks epoll (.sys .turn) = some X.back := by
  obtain ⟨r, hr, h⟩ := Option.bind_eq_some_iff.mp h
  obtain ⟨A, hA, h⟩ := Option.bind_eq_some_iff.mp h
  obtain ⟨A₁, hA₁, h⟩ := Option.bind_eq_some_iff.mp h
  obtain ⟨A₂, hA₂, h⟩ := Option.bind_eq_some_iff.mp h
  obtain ⟨A₃, hA₃, h⟩ := Option.bind_eq_some_iff.mp h
  split_ifs at h with hrest
  obtain rfl := Option.some.inj h
  exact ⟨r, hr, hA, hA₁, hA₂, hrest, hA₃⟩

/-- Fiber `192` reads `3`, which would block; then fiber `512` has control. -/
def reader_parked : List (Do Choice) :=
  [.sys .spawn, .sys .spawn, .sys .run, .sys .turn, .sys .turn, .call (.read 3 8 (-1)),
    .transfer (.error .EAGAIN), .look, .rewait, .sys .turn, .sys .turn]

/-- `512` yields, and the loop goes round. -/
def loop_round : List (Do Choice) :=
  [.sys .yield, .sys .turn, .sys .turn, .sys (.poll (.report [] false)), .sys .turn, .sys .turn,
    .sys .turn]

theorem close_ends_wait_epoll : ∃ r A A₁ A₂ A₃ c, start = some r ∧
    exec (App.step bumpLibc roomyStacks epoll) (App.boot r) reader_parked = some A ∧
    A.calls 192 = some c ∧ InWait A.sys 192 3 ∧
    A.step bumpLibc roomyStacks epoll (.sys (.close 3)) = some A₁ ∧
    exec (App.step bumpLibc roomyStacks epoll) A₁ loop_round = some A₂ ∧
    A₂.step bumpLibc roomyStacks epoll (.sys .turn) = some A₃ ∧ Over A₃ 192 c .CANCELLED := by
  have hsome : ((closing reader_parked loop_round).bind fun X => (X.before.calls 192).map fun _ =>
      (X.before.sys.r.mem.state 192, X.before.sys.r.mem.wait_fd 192, X.back.sys.r.mem.state 192)) =
        some (.FB_PARKED, 3, .FB_RUNNING) := by decide +kernel
  obtain ⟨X, hX, hsome⟩ := Option.bind_eq_some_iff.mp hsome
  obtain ⟨c, hc, heq⟩ := Option.map_eq_some_iff.mp hsome
  simp only [Prod.mk.injEq] at heq
  obtain ⟨hst, hfd, hruns⟩ := heq
  obtain ⟨r, hr, hrun, hclose, hafter, hrest, hback⟩ := closing_some hX
  have hwait : InWait X.before.sys 192 3 := ⟨Or.inl hst, hfd, by decide⟩
  exact ⟨r, X.before, X.closed, X.later, X.back, c, hr, hrun, hc, hwait, hclose, hafter, hback,
    (close_ends_wait bumpLibc_ok (start_fresh hr) hrun hc hwait hclose hafter hrest hback
      hruns).1 hst⟩

/-- `512` yields, the kernel reports `3`, and `512` has control again. -/
def reader_ready : List (Do Choice) :=
  reader_parked ++ [.sys .yield, .sys .turn, .sys .turn, .sys (.poll (.report [(3, 30)] false)),
    .sys .turn, .sys .turn, .sys .turn, .sys .turn, .sys .turn]

/-- The number `3` is given to another file. -/
def number_reused : List (Do Choice) := [.sys (.other (.open 3 50)), .sys .yield, .sys .turn]

/-- **A reader that was ready reads on**, from another file than the one it waited for. -/
theorem ready_waiter_reads_on : ∃ r A A₁ A₂ A₃ A₄ c, start = some r ∧
    exec (App.step bumpLibc roomyStacks epoll) (App.boot r) reader_ready = some A ∧
    A.calls 192 = some c ∧ c.op = .read 3 8 (-1) ∧ InWait A.sys 192 3 ∧
    A.step bumpLibc roomyStacks epoll (.sys (.close 3)) = some A₁ ∧
    exec (App.step bumpLibc roomyStacks epoll) A₁ number_reused = some A₂ ∧
    Along (App.step bumpLibc roomyStacks epoll)
      (fun A => A.sys.r.mem.state 192 ≠ .FB_RUNNING) A₁ number_reused ∧
    A₂.step bumpLibc roomyStacks epoll (.sys .turn) = some A₃ ∧
    A₃.sys.r.mem.state 192 = .FB_RUNNING ∧ A₃.sys.ret = some (.status .READY) ∧
    A₃.sys.r.epoll.file 3 = some 50 ∧
    A₃.step bumpLibc roomyStacks epoll (.transfer (.ok 5)) = some A₄ ∧
    (∃ c', A₄.returned = some (192, c', .count 5)) := by
  have hsome : (((closing reader_ready number_reused).filter fun X =>
        X.before.sys.r.mem.state 192 = .FB_READY ∧ X.before.sys.r.mem.wait_fd 192 = 3 ∧
          X.back.sys.r.mem.state 192 = .FB_RUNNING ∧ X.back.sys.r.epoll.file 3 = some 50).bind fun X =>
      (X.before.calls 192).bind fun c =>
      (X.back.step bumpLibc roomyStacks epoll (.transfer (.ok 5))).bind fun A₄ =>
      A₄.returned.map fun x =>
        (c.op, X.back.sys.ret, x.1, x.2.2)) =
        some (.read 3 8 (-1), some (.status .READY), 192, .count 5) := by
    decide +kernel
  obtain ⟨X, hX, hsome⟩ := Option.bind_eq_some_iff.mp hsome
  obtain ⟨hX, hready⟩ := Option.filter_eq_some_iff.mp hX
  obtain ⟨hst, hfd, hruns, hfile⟩ := of_decide_eq_true hready
  obtain ⟨c, hc, hsome⟩ := Option.bind_eq_some_iff.mp hsome
  obtain ⟨A₄, hread, hsome⟩ := Option.bind_eq_some_iff.mp hsome
  obtain ⟨⟨g, c', res⟩, hret, heq⟩ := Option.map_eq_some_iff.mp hsome
  simp only [Prod.mk.injEq] at heq
  obtain ⟨hop, hstatus, rfl, rfl⟩ := heq
  obtain ⟨r, hr, hrun, hclose, hafter, hrest, hback⟩ := closing_some hX
  exact ⟨r, X.before, X.closed, X.later, X.back, A₄, c, hr, hrun, hc, hop,
    ⟨Or.inr hst, hfd, by decide⟩, hclose, hafter, hrest, hback, hruns, hstatus, hfile, hread, c',
    hret⟩

end CFiber.Ev
