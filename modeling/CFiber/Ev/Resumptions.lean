/-
  CFiber.Ev.Resumptions — what ends a wait.

  Readiness, a deadline, a cancel, a wake and a close can all reach one parked fiber within one turn
  of the loop.  The first of them (`first_source`) puts the fiber on the ready queue and decides the
  status; the others find it there.

  Main results:

    • `Does.dispatch_iff`      — the move that runs a fiber, and the step that makes it;
    • `Undecided.step`         — a parked fiber stays parked, or a source decides its wait;
    • `Decided.step`           — then nothing changes until it runs;
    • `first_source_decides`   — both, over any run.
-/
import CFiber.Ev.Deadlines

namespace CFiber.Ev

open CFiber.Base CFiber.Memory

variable {T : Target} {γ σ κ δ : Type}
variable {L : Libc γ} {P : StackPool σ} {K : Kernel κ δ}
variable {out : γ → List Region} {good : γ → Prop}

/-! ## §1. The first source. -/

/-- The status that a step brings to `f`. -/
def brings (S : Sys T γ σ κ) (a : Action δ) (f : Nat) : Option EvStatus :=
  match source S a with
  | some (g, status) => if g = f then some status else none
  | none => none

section
variable (L : Libc γ) (P : StackPool σ) (K : Kernel κ δ)

/-- The status that a run brings to `f` first. -/
def first_source (f : Nat) : Sys T γ σ κ → List (Action δ) → Option EvStatus
  | _, [] => none
  | S, a :: as =>
    (brings S a f).or
      (match step L P K S a with
      | some S' => first_source f S' as
      | none => none)

end

section
variable {S S' : Sys T γ σ κ} {q q' : List Nat} {a : Action δ} {m : Move} {f : Nat}
variable {status : EvStatus}

theorem brings_iff : brings S a f = some status ↔ source S a = some (f, status) := by
  unfold brings
  cases hs : source S a with
  | none => simp
  | some x =>
      obtain ⟨g, st⟩ := x
      dsimp only
      split_ifs with hg
      · simp [hg]
      · simp [hg]

theorem first_source_cons (h : step L P K S a = some S') (as : List (Action δ)) :
    first_source L P K f S (a :: as) = (brings S a f).or (first_source L P K f S' as) := by
  simp only [first_source, h]

/-- **A dispatch** is a turn of a round that finds the fiber at the head of the queue. -/
theorem Does.dispatch_iff (hok : Ok out good S q) (hd : Does P K out good S a S' m q q')
    (h : step L P K S a = some S') :
    m = .dispatch f ↔ CFiber.Ev.dispatched S a = some f := by
  constructor
  · intro hm
    obtain ⟨⟨e, hpc'⟩, hno⟩ := hd.dispatch_pc hok hm
    obtain ⟨rfl, hpc, st, r, hdisp, -⟩ := dispatch_of_step hno hpc' h
    have hhead : S.r.ready_head = some f := by
      unfold dispatch dequeue at hdisp
      cases hh : S.r.ready_head with
      | none => simp [hh] at hdisp
      | some g =>
          simp only [hh, Option.some.injEq, Prod.mk.injEq] at hdisp
          rw [hdisp.1]
    simp only [CFiber.Ev.dispatched, hpc]
    exact hhead
  · intro hdisp
    unfold CFiber.Ev.dispatched at hdisp
    split at hdisp
    · split at hdisp
      · rename_i e hpc
        rcases turn_round hpc h with ⟨hnone, -⟩ | ⟨g, hg, hpc'⟩
        · rw [hnone] at hdisp
          exact absurd hdisp (by simp)
        · rw [hg] at hdisp
          obtain rfl := Option.some.inj hdisp
          exact hd.dispatched hok (by rw [hpc]; simp) hpc'
      · exact absurd hdisp (by simp)
    · exact absurd hdisp (by simp)

/-- A source does not come with a dispatch. -/
theorem dispatched_of_source {x : Nat × EvStatus} (hs : source S a = some x) :
    dispatched S a = none := by
  unfold dispatched
  split
  · split
    · rename_i e hpc
      simp [source, commanded, command, hpc] at hs
    · rfl
  · rfl

/-! ## §2. Before and after it. -/

/-- `f` is parked, and was put on the queue `n` times so far. -/
structure Undecided (n : Nat) (S : Sys T γ σ κ) (f : Nat) : Prop where
  parked : (view S.r f).state = .FB_PARKED
  enqueued : (view S.r f).enqueued = n

/-- The wait of `f` is over, with this status, and `f` still has to run. -/
structure Resolved (S : Sys T γ σ κ) (f : Nat) (status : EvStatus) : Prop where
  ready : (view S.r f).state = .FB_READY
  came : (view S.r f).wait_status = status
  cont : (view S.r f).ctx ≠ .entry ∧ (view S.r f).ctx ≠ .yield

/-- It was put on the queue once more for that. -/
structure Decided (n : Nat) (S : Sys T γ σ κ) (f : Nat) (status : EvStatus) : Prop
    extends Resolved S f status where
  once : (view S.r f).enqueued = n + 1
  detached : status ≠ .READY → S.r.mem.reg_fd f = -1

theorem ParkKind.ctx_waits (k : ParkKind) : k.ctx ≠ .entry ∧ k.ctx ≠ .yield := by
  cases k <;> exact ⟨by simp [ParkKind.ctx], by simp [ParkKind.ctx]⟩

variable {n : Nat}

/-- **A step and a parked fiber**: it stays parked, or what the step brings decides its wait. -/
theorem Undecided.step (hok : Ok out good S q) (hd : Does P K out good S a S' m q q')
    (h : Undecided n S f) :
    (brings S a f = none → Undecided n S' f) ∧
      ∀ status, brings S a f = some status → Decided n S' f status := by
  have hparked : S.r.mem.state f = .FB_PARKED := h.parked
  constructor
  · intro hnone
    have hdisp : m ≠ .dispatch f := by
      rintro rfl
      have hready : (view S.r f).state = .FB_READY := hd.moved.pre f rfl
      rw [h.parked] at hready
      exact absurd hready (by simp)
    rcases hd.waiting hok (Or.inl h.parked) hdisp with hv | hv | ⟨status, rfl, -, -⟩
    · exact ⟨by rw [hv]; exact h.parked, by rw [hv]; exact h.enqueued⟩
    · exact ⟨by rw [hv]; exact h.parked, by rw [hv]; exact h.enqueued⟩
    · -- a wake-up comes from a source
      have hsome := brings_iff.mpr (hd.label.of_wake f status rfl)
      rw [hnone] at hsome
      exact absurd hsome (by simp)
  · intro status hsome
    obtain rfl := hd.label.reached f status (brings_iff.mp hsome) hparked
    have hself := hd.moved.self f rfl
    have hctx : (view S.r f).ctx = (view S.r f).park.ctx := hok.core.waits.cont f hparked
    refine ⟨⟨by rw [hself]; rfl, by rw [hself]; rfl, ?_⟩, ?_, ?_⟩
    · rw [hself]
      show (view S.r f).ctx ≠ .entry ∧ (view S.r f).ctx ≠ .yield
      rw [hctx]
      exact ParkKind.ctx_waits _
    · rw [hself]
      show (view S.r f).enqueued + 1 = n + 1
      rw [h.enqueued]
    · intro hne
      exact (hd.moved.reg f rfl).resolve_right fun hr => hne hr.1

/-- **A step and a fiber whose wait is over**: until it runs, nothing is undone. -/
theorem Resolved.step (hok : Ok out good S q) (hd : Does P K out good S a S' m q q')
    (h : Resolved S f status) (hm : m ≠ .dispatch f) :
    Resolved S' f status ∧ (view S'.r f).enqueued = (view S.r f).enqueued := by
  rcases hd.waiting hok (Or.inr h.ready) hm with hv | hv | ⟨_, rfl, hp, -⟩
  · rw [hv]
    exact ⟨⟨by rw [hv]; exact h.ready, by rw [hv]; exact h.came, by rw [hv]; exact h.cont⟩, rfl⟩
  · rw [hv]
    exact ⟨⟨by rw [hv]; exact h.ready, by rw [hv]; exact h.came, by rw [hv]; exact h.cont⟩, rfl⟩
  · rw [h.ready] at hp
    exact absurd hp (by simp)

theorem Decided.step (hok : Ok out good S q) (hd : Does P K out good S a S' m q q')
    (h : Decided n S f status) (hm : m ≠ .dispatch f) : Decided n S' f status := by
  obtain ⟨hres, henq⟩ := h.toResolved.step hok hd hm
  refine ⟨hres, henq.trans h.once, ?_⟩
  intro hne
  have hbefore := h.detached hne
  by_cases hself : m.fiber = some f
  · have hreg := hd.moved.reg f hself
    have hpre := hd.moved.pre f hself
    cases m with
    | permit g => exact Eq.trans hreg hbefore
    | dispatch g => exact absurd (by rw [Option.some.inj hself]) hm
    | quiet => exact absurd hself (by simp [Move.fiber])
    | consume g => exact absurd (hpre.1.symm.trans h.ready) (by simp)
    | _ => exact absurd (Eq.trans (Eq.symm hpre) h.ready) (by simp)
  · have hready : S.r.mem.state f = .FB_READY := h.ready
    have hlive : f ∈ S.alive := hok.core.mem_live (by simp [hready])
    rcases hd.moved.regs f hlive hself with hkept | hgone
    · exact hkept.trans hbefore
    · exact hgone

/-- **The dispatch** hands over the status of the wait. -/
theorem Resolved.dispatch (hd : Does P K out good S a S' m q q') (h : Resolved S f status)
    (hm : m = .dispatch f) :
    S'.ret = some (.status status) ∧ S'.r.mem.state f = .FB_RUNNING ∧
      S'.r.enqueued f = S.r.enqueued f ∧ S'.r.mem.reg_fd f = S.r.mem.reg_fd f := by
  subst hm
  have hself := hd.moved.self f rfl
  refine ⟨?_, congrArg FiberView.state hself, congrArg FiberView.enqueued hself,
    hd.moved.reg f rfl⟩
  rw [hd.label.of_dispatch f rfl]
  have hst := h.came
  obtain ⟨h1, h2⟩ := h.cont
  unfold FiberView.returned
  cases hctx : (view S.r f).ctx with
  | entry => exact absurd hctx h1
  | yield => exact absurd hctx h2
  | _ => rw [hst]; rfl

/-! ## §3. Runs. -/

theorem Decided.run (H : LibcOk T L out good) {as : List (Action δ)} :
    ∀ {S : Sys T γ σ κ} {q : List Nat}, Ok out good S q → Decided n S f status →
      exec (CFiber.Ev.step L P K) S as = some S' → f ∉ dispatches L P K S as →
      ∃ q', Ok out good S' q' ∧ Decided n S' f status := by
  induction as with
  | nil =>
      intro S q hok h hrun _
      obtain rfl : S = S' := by simpa using hrun
      exact ⟨q, hok, h⟩
  | cons a as ih =>
      intro S q hok h hrun hnot
      obtain ⟨t, ht, hrest⟩ := exec_cons.mp hrun
      obtain ⟨m, q₁, hd⟩ := step_does H hok ht
      rw [dispatches_cons ht, List.mem_append, not_or, Option.mem_toList] at hnot
      have hm : m ≠ .dispatch f := fun hm => hnot.1 ((hd.dispatch_iff hok ht).mp hm)
      exact ih hd.ok (h.step hok hd hm) hrest hnot.2

/-- **A run and a parked fiber**, up to where the fiber runs again. -/
theorem Undecided.run (H : LibcOk T L out good) {as : List (Action δ)} :
    ∀ {S : Sys T γ σ κ} {q : List Nat}, Ok out good S q → Undecided n S f →
      exec (CFiber.Ev.step L P K) S as = some S' → f ∉ dispatches L P K S as →
      ∃ q', Ok out good S' q' ∧ (first_source L P K f S as = none → Undecided n S' f) ∧
        ∀ status, first_source L P K f S as = some status → Decided n S' f status := by
  induction as with
  | nil =>
      intro S q hok h hrun _
      obtain rfl : S = S' := by simpa using hrun
      exact ⟨q, hok, fun _ => h, fun _ hs => absurd hs (by simp [first_source])⟩
  | cons a as ih =>
      intro S q hok h hrun hnot
      obtain ⟨t, ht, hrest⟩ := exec_cons.mp hrun
      obtain ⟨m, q₁, hd⟩ := step_does H hok ht
      obtain ⟨hnone, hsome⟩ := h.step hok hd
      rw [dispatches_cons ht, List.mem_append, not_or, Option.mem_toList] at hnot
      rw [first_source_cons ht]
      cases hb : brings S a f with
      | none => exact ih hd.ok (hnone hb) hrest hnot.2
      | some status =>
          -- the first source: the rest of the run changes nothing
          obtain ⟨q', hok', hdec⟩ := (hsome status hb).run H hd.ok hrest hnot.2
          refine ⟨q', hok', fun hn => absurd hn (by simp), ?_⟩
          intro status' hs
          obtain rfl := Option.some.inj hs
          exact hdec

end

/-! ## §4. The first source decides. -/

/-- **The first source decides.**  Fiber `f` is parked in a state `S` of a run, and the run goes on
to `S'` without dispatching it.  If no source reached it, it is parked still and was not put on the
queue; otherwise it was put there once and has the status of the first source.  A later source
leaves its status and the fibers ahead of it on the queue as they are.  When it is dispatched its
wait returns that status, it is in no slot of the timer heap, and after a timeout or a cancel it
holds no descriptor. -/
theorem first_source_decides {S S' : Sys T γ σ κ} {f : Nat} (H : LibcOk T L out good)
    {r : Reactor T γ σ κ} (hr : Fresh T out good r) {before as : List (Action δ)}
    (hrun : exec (step L P K) (boot r) before = some S) (hp : S.r.mem.state f = .FB_PARKED)
    (has : exec (step L P K) S as = some S') (hnot : f ∉ dispatches L P K S as) :
    (first_source L P K f S as = none →
      S'.r.mem.state f = .FB_PARKED ∧ S'.r.enqueued f = S.r.enqueued f) ∧
    (∀ status, first_source L P K f S as = some status →
      S'.r.mem.state f = .FB_READY ∧ S'.r.enqueued f = S.r.enqueued f + 1 ∧
        S'.r.mem.wait_status f = status) ∧
    (∀ status, first_source L P K f S as = some status → ∀ a S'' later,
      step L P K S' a = some S'' → source S' a = some (f, later) →
      S''.r.mem.state f = .FB_READY ∧ S''.r.enqueued f = S'.r.enqueued f ∧
        S''.r.mem.wait_status f = status ∧
        ∀ q, Fifo S'.r.mem.next S'.r.ready_head S'.r.ready_tail q →
          ∃ new, Fifo S''.r.mem.next S''.r.ready_head S''.r.ready_tail (q ++ new)) ∧
    ∀ a S'', step L P K S' a = some S'' → dispatched S' a = some f →
      ∃ status, first_source L P K f S as = some status ∧ S''.ret = some (.status status) ∧
        S''.r.mem.state f = .FB_RUNNING ∧ S''.r.enqueued f = S.r.enqueued f + 1 ∧
        S''.r.mem.timer_i f = none ∧ ¬ InHeap S''.r f ∧
        (status = .TIMEOUT ∨ status = .CANCELLED → S''.r.mem.reg_fd f = -1) := by
  obtain ⟨q, hok⟩ := exec_ok H (boot_ok hr) hrun
  have hstart : Undecided (S.r.enqueued f) S f := ⟨hp, rfl⟩
  obtain ⟨q', hok', hnone, hsome⟩ := hstart.run H hok has hnot
  refine ⟨?_, ?_, ?_, ?_⟩
  · intro hs
    exact ⟨(hnone hs).parked, (hnone hs).enqueued⟩
  · intro status hs
    exact ⟨(hsome status hs).ready, (hsome status hs).once, (hsome status hs).came⟩
  · intro status hs a S'' later hstep hlater
    obtain ⟨m, q'', hd⟩ := step_does H hok' hstep
    have hdec := hsome status hs
    have hno : ∀ g, m ≠ .dispatch g := by
      intro g hm
      have hdisp := (hd.dispatch_iff hok' hstep).mp hm
      rw [dispatched_of_source hlater] at hdisp
      exact absurd hdisp (by simp)
    have hdec' := hdec.step hok' hd (hno f)
    refine ⟨hdec'.ready, hdec'.once.trans hdec.once.symm, hdec'.came, ?_⟩
    intro q₀ hq₀
    obtain ⟨new, hnew⟩ := (hd.moved.queue_grows hok' hno).1
    have hqueue := hd.ok.core.roster.queue
    rw [hnew] at hqueue
    rw [hq₀.unique hok'.core.roster.queue]
    exact ⟨new, hqueue⟩
  · intro a S'' hstep hdisp
    obtain ⟨m, q'', hd⟩ := step_does H hok' hstep
    have hm := (hd.dispatch_iff hok' hstep).mpr hdisp
    cases hs : first_source L P K f S as with
    | none =>
        -- a parked fiber is not dispatched
        subst hm
        have hready : (view S'.r f).state = .FB_READY := hd.moved.pre f rfl
        rw [(hnone hs).parked] at hready
        exact absurd hready (by simp)
    | some status =>
        have hdec := hsome status hs
        obtain ⟨hret, hst, henq, hreg⟩ := hdec.toResolved.dispatch hd hm
        have hlive : f ∈ S''.alive := hd.ok.core.mem_live (by simp [hst])
        have hnotparked : S''.r.mem.state f ≠ .FB_PARKED := by simp [hst]
        refine ⟨status, rfl, hret, hst, henq.trans hdec.once, hd.ok.core.no_timer hlive hnotparked,
          hd.ok.core.not_in_heap hnotparked, ?_⟩
        intro hcase
        apply hreg.trans
        apply hdec.detached
        rcases hcase with rfl | rfl <;> simp

/-- A fiber waits on `3` for at most five nanoseconds; another one yields. -/
def timed_wait : List (Action Choice) :=
  [.spawn, .spawn, .run, .turn, .turn, .wait 3 EPOLLIN 5, .turn, .turn, .yield, .turn]

/-- Readiness comes first; then the deadline passes, and the other fiber closes `3`. -/
def ready_late_closed : List (Action Choice) :=
  [.turn, .poll (.report [(3, 30)] false), .turn, .tick 10, .turn, .turn, .turn, .turn, .close 3]

theorem first_source_decides_epoll : ∃ r S S', start = some r ∧
    exec (step bumpLibc roomyStacks epoll) (boot r) timed_wait = some S ∧
    exec (step bumpLibc roomyStacks epoll) S ready_late_closed = some S' ∧
    S'.r.mem.state 192 = .FB_READY ∧ S'.r.enqueued 192 = S.r.enqueued 192 + 1 ∧
    S'.r.mem.wait_status 192 = .READY := by
  have hsome : ((runs timed_wait).bind fun S =>
      (exec (step bumpLibc roomyStacks epoll) S ready_late_closed).map fun _ =>
        (S.r.mem.state 192, dispatches bumpLibc roomyStacks epoll S ready_late_closed,
          first_source bumpLibc roomyStacks epoll 192 S ready_late_closed)) =
        some (.FB_PARKED, [512], some .READY) := by decide +kernel
  obtain ⟨S, hS, hsome⟩ := Option.bind_eq_some_iff.mp hsome
  obtain ⟨S', has, heq⟩ := Option.map_eq_some_iff.mp hsome
  simp only [Prod.mk.injEq] at heq
  obtain ⟨hp, hdisp, hfirst⟩ := heq
  obtain ⟨r, hr, hrun⟩ := runs_some hS
  have hnot : 192 ∉ dispatches bumpLibc roomyStacks epoll S ready_late_closed := by
    rw [hdisp]
    decide
  exact ⟨r, S, S', hr, hrun, has,
    (first_source_decides bumpLibc_ok (start_fresh hr) hrun hp has hnot).2.1 .READY hfirst⟩

end CFiber.Ev
