/-
  CFiber.Sched.RoundRobin — the scheduler as a FIFO round-robin machine.

  `Program` says what a fiber does next, given everything that has been executed before.  `drive` is
  `cfiber_scheduler_run` with such programs.  `Machine` is the reference: one queue; pop the head,
  run it to its next yield or return, append a spawned fiber at the back at spawn time and a yielding
  fiber on every yield.  It has no shortcut.

  The machine starts from the queue that the history leaves (`fifo`): before a first run, the fibers
  in the order in which they were seeded.  The scheduler's own queue is that one whenever the host
  can call `cfiber_scheduler_run` (`ready_fifo`).

  The two execute the same fiber steps (`round_robin_iff`) except for one thing: the loop's test is
  on `active_count`, a `uint32_t`, so a run that reaches the test with a positive multiple of
  `2 ^ 32` ready fibers ends there.
-/
import CFiber.Base.Lockstep
import CFiber.Sched.Ownership

namespace CFiber.Sched

open CFiber.Base CFiber.Memory

variable {T : Target} {γ : Type} {B : Backing γ} {out : γ → List Region} {good : γ → Prop}
  {S S' : Sys T γ} {q : List Nat}

/-! ## §1. Programs. -/

/-- A step of a fiber. -/
inductive Stmt where
  | yield
  | spawn
  | ret
  deriving DecidableEq, Repr

/-- What each fiber does next, after a history of fiber steps. -/
abbrev Program := List Event → Nat → Stmt

/-- The releases are the loop's doing; the rest are steps of fibers, or spawns by the host. -/
def Event.isStep : Event → Bool
  | .free _ => false
  | _ => true

/-- The fiber steps executed so far. -/
def Sys.history (S : Sys T γ) : List Event := S.events.filter Event.isStep

/-- What happens next inside `cfiber_scheduler_run`; `none` when it has returned. -/
def next_action (prog : Program) (S : Sys T γ) : Option Action :=
  match S.pc with
  | .loop => some .turn
  | .fiber t =>
    match prog S.history (S.s.mem.entry t) with
    | .yield => some .yield
    | .spawn => some .spawn
    | .ret => some .finish
  | .host | .trap => none

def drive (B : Backing γ) (prog : Program) (S : Sys T γ) : Sys T γ :=
  ((next_action prog S).bind (step B S)).getD S

/-- `cfiber_scheduler_run`, called by the host in `S`, after `n` steps. -/
def execution (B : Backing γ) (prog : Program) (S : Sys T γ) (n : Nat) : Sys T γ :=
  (drive B prog)^[n] { S with pc := .loop }

/-! ## §2. The reference machine. -/

structure Machine where
  queue : List Nat
  running : Option Nat
  spawned : Nat
  history : List Event

/-- `grant` says whether the spawn after a history succeeds. -/
def Machine.step (prog : Program) (grant : List Event → Bool) (M : Machine) : Machine :=
  match M.running with
  | none =>
    match M.queue with
    | [] => M
    | f :: queue => { M with running := some f, queue := queue }
  | some f =>
    match prog M.history f with
    | .yield =>
      { M with
        running := none
        queue := M.queue ++ [f]
        history := M.history ++ [.yield f] }
    | .spawn =>
      if grant M.history then
        { M with
          queue := M.queue ++ [M.spawned]
          spawned := M.spawned + 1
          history := M.history ++ [.spawn (some f) (some M.spawned)] }
      else { M with history := M.history ++ [.spawn (some f) none] }
    | .ret => { M with running := none, history := M.history ++ [.ret f] }

/-- A queue, at its head the fiber that runs, after a step of that fiber or a spawn by the host. -/
def Event.requeue (l : List Nat) : Event → List Nat
  | .spawn _ made => l ++ made.toList
  | .yield f => l.tail ++ [f]
  | .ret _ => l.tail
  | .free _ => l

/-- The queue that a history leaves. -/
def fifo (es : List Event) : List Nat := es.foldl Event.requeue []

/-- The reference machine when the host calls `cfiber_scheduler_run`. -/
def Sys.machine (S : Sys T γ) : Machine := ⟨fifo S.history, none, S.spawned, S.history⟩

def reference (prog : Program) (grant : List Event → Bool) (S : Sys T γ) (m : Nat) : Machine :=
  (Machine.step prog grant)^[m] S.machine

/-- **The run executes the fiber steps of the reference machine**: for some outcomes of the spawns,
the histories that the one goes through are those the other goes through. -/
def RoundRobin (B : Backing γ) (prog : Program) (S : Sys T γ) : Prop :=
  ∃ grant : List Event → Bool,
    (∀ n, ∃ m, (execution B prog S n).history = (reference prog grant S m).history) ∧
    ∀ m, ∃ n, (reference prog grant S m).history = (execution B prog S n).history

/-! ## §3. The scheduler's own queue. -/

theorem history_of_snoc (S S' : Sys T γ) {e : Event} (he : S'.events = S.events ++ [e])
    (hstep : e.isStep = true) : S'.history = S.history ++ [e] := by
  simp [Sys.history, he, hstep]

/-- Releasing the zombie is no fiber's step. -/
theorem history_of_freed (he : S'.events = S.events ++ freed S.s) : S'.history = S.history := by
  unfold Sys.history freed at *
  rw [he]
  cases S.s.zombie <;> simp [Event.isStep]

/-- The ready fibers of a scheduler, in order. -/
def Sys.ready (S : Sys T γ) : List Nat :=
  (walk S.s.mem.next S.spawned S.s.ready_head).map S.s.mem.entry

theorem Inv.ready_eq (h : Inv out good S q) : S.ready = ready_names S q := by
  have hlen : q.length ≤ S.spawned := by
    have := h.lives.ended
    rw [unreturned_length] at this
    omega
  unfold Sys.ready ready_names
  rw [h.rep.ready_head, walk_eq h.rep.queue.links hlen]

/-- The fiber that has control and the ready ones, in order, are the queue of the history. -/
def Queued (S : Sys T γ) (q : List Nat) : Prop :=
  S.running.toList ++ ready_names S q = fifo S.history

theorem fifo_snoc (S S' : Sys T γ) {e : Event} (he : S'.events = S.events ++ [e])
    (hstep : e.isStep = true) : fifo S'.history = e.requeue (fifo S.history) := by
  rw [history_of_snoc S S' he hstep, fifo, List.foldl_append]
  rfl

theorem running_fiber {t : Nat} (hpc : S.pc = .fiber t) : S.running = some (S.s.mem.entry t) := by
  unfold Sys.running
  rw [hpc]

theorem running_none (hpc : S.pc = .host ∨ S.pc = .loop) : S.running = none := by
  unfold Sys.running
  rcases hpc with hpc | hpc
  · rw [hpc]
  · rw [hpc]

/-- **The queue is first in, first out**: one case for each kind of step. -/
theorem Inv.queued_step (H : Honest T B out good) {a : Action} (h : Inv out good S q)
    (hq : Queued S q) (hstep : Sched.step B S a = some S') :
    ∃ q', Inv out good S' q' ∧ Queued S' q' := by
  unfold Queued at hq
  rcases step_cases hstep with ⟨rfl, -, rfl⟩ | ⟨rfl, hpc, rfl⟩ | ⟨rfl, hpc, rfl⟩ |
    ⟨t, rfl, hpc, rfl⟩ | ⟨t, rfl, hpc, rfl⟩
  · rcases h.spawn H with ⟨q', h', hnames, -, hself, -, hevents, -⟩ | ⟨s', -, hu, h', heq⟩
    · refine ⟨q', h', ?_⟩
      unfold Queued
      rw [fifo_snoc S _ hevents rfl, ← hq, hself, hnames, ← List.append_assoc]
      rfl
    · -- refused: the event names no fiber
      rw [heq]
      refine ⟨q, h', ?_⟩
      unfold Queued
      rw [fifo_snoc S _ rfl rfl, ← hq]
      show _ = _ ++ []
      unfold Sys.running ready_names
      rw [hu.mem, List.append_nil]
  · rw [running_none (Or.inl hpc)] at hq
    exact ⟨q, h.enter hpc, hq⟩
  · rw [running_none (Or.inr hpc)] at hq
    rcases h.turn H hpc with ⟨-, h', hpc', hnames, -, hevents, -⟩ |
      ⟨t, q', rfl, -, h', -, hself, hnames, -, hevents, -⟩
    · refine ⟨q, h', ?_⟩
      unfold Queued
      rw [history_of_freed hevents, ← hq, hnames, running_none (Or.inl hpc')]
    · -- the head of the queue now has control
      refine ⟨q', h', ?_⟩
      unfold Queued
      rw [history_of_freed hevents, ← hq, hnames, hself]
      rfl
  · rw [running_fiber hpc] at hq
    rcases h.yield hpc with ⟨rfl, h', -, hself', -⟩ | ⟨-, h', hpc', hnames, -⟩
    · -- the shortcut: a queue of one is the same after a turn
      refine ⟨[], h', ?_⟩
      unfold Queued
      rw [fifo_snoc S (yielded S t) rfl rfl, ← hq, hself']
      rfl
    · refine ⟨q ++ [t], h', ?_⟩
      unfold Queued
      rw [fifo_snoc S (yielded S t) rfl rfl, ← hq, running_none (Or.inr hpc'), hnames]
      rfl
  · refine ⟨q, (h.finish hpc).1, ?_⟩
    rw [running_fiber hpc] at hq
    unfold Queued
    rw [fifo_snoc S (returned S t) rfl rfl, ← hq]
    rfl

/-- **In every reachable state** the scheduler's queue is the history's. -/
theorem queued_run (H : Honest T B out good) {sizeof_task : Nat} {config : Config} {m : TaskMem}
    {c : γ} {s : Scheduler T γ}
    (hinit : cfiber_scheduler_init_ext T sizeof_task config m c = some s) (hg : good c)
    (hout : out c = []) {actions : List Action}
    (hrun : exec (step B) (boot s) actions = some S) : ∃ q, Inv out good S q ∧ Queued S q :=
  exec_inv (fun S => ∃ q, Inv out good S q ∧ Queued S q)
    (fun _ _ _ ⟨_, h, hq⟩ hstep => h.queued_step H hq hstep)
    ⟨[], Inv.start hinit hg hout, rfl⟩ hrun

theorem Queued.host (hq : Queued S q) (hpc : S.pc = .host) : ready_names S q = fifo S.history := by
  unfold Queued at hq
  rwa [running_none (Or.inl hpc)] at hq

/-- **First in, first out.**  Whenever the host can call `cfiber_scheduler_run`, the ready fibers are
those of the history's queue, in its order. -/
theorem ready_fifo (H : Honest T B out good) {sizeof_task : Nat} {config : Config} {m : TaskMem}
    {c : γ} {s : Scheduler T γ}
    (hinit : cfiber_scheduler_init_ext T sizeof_task config m c = some s) (hg : good c)
    (hout : out c = []) {actions : List Action}
    (hrun : exec (step B) (boot s) actions = some S) (hpc : S.pc = .host) :
    S.ready = fifo S.history := by
  obtain ⟨q, h, hq⟩ := queued_run H hinit hg hout hrun
  rw [h.ready_eq, hq.host hpc]

/-! ## §4. One step of the run. -/

theorem drive_loop {prog : Program} (hpc : S.pc = .loop) : drive B prog S = turn B S := by
  simp [drive, next_action, step, hpc]

theorem drive_host {prog : Program} (hpc : S.pc = .host) : drive B prog S = S := by
  simp [drive, next_action, hpc]

theorem drive_yield {prog : Program} {t : Nat} (hpc : S.pc = .fiber t)
    (hprog : prog S.history (S.s.mem.entry t) = .yield) : drive B prog S = yielded S t := by
  simp [drive, next_action, step, hpc, hprog, yielded]

theorem drive_spawn {prog : Program} {t : Nat} (hpc : S.pc = .fiber t)
    (hprog : prog S.history (S.s.mem.entry t) = .spawn) : drive B prog S = spawn B S := by
  simp [drive, next_action, step, hpc, hprog]

theorem drive_ret {prog : Program} {t : Nat} (hpc : S.pc = .fiber t)
    (hprog : prog S.history (S.s.mem.entry t) = .ret) : drive B prog S = returned S t := by
  simp [drive, next_action, step, hpc, hprog, returned]

/-! ## §5. Pace. -/

/-- Where the reference machine is when the scheduler is in `S`.  On the shortcut of `cfiber_yield`
the machine has put the running fiber into its queue, where it is alone. -/
def Place (S : Sys T γ) (q : List Nat) (M : Machine) : Prop :=
  match S.pc with
  | .fiber t =>
    (M.running = some (S.s.mem.entry t) ∧ M.queue = ready_names S q) ∨
      (q = [] ∧ M.running = none ∧ M.queue = [S.s.mem.entry t])
  | _ => M.running = none ∧ M.queue = ready_names S q

structure Paced (out : γ → List Region) (good : γ → Prop) (S : Sys T γ) (q : List Nat)
    (M : Machine) : Prop where
  inv : Inv out good S q
  spawned : M.spawned = S.spawned
  history : M.history = S.history
  place : Place S q M

/-- The machine keeps pace with the scheduler. -/
def Pace (out : γ → List Region) (good : γ → Prop) (S : Sys T γ) (M : Machine) : Prop :=
  ∃ q, Paced out good S q M

/-- `grant` tells the outcomes of the spawns in `S`'s history, from its entry `start` on. -/
def Agrees (start : Nat) (grant : List Event → Bool) (S : Sys T γ) : Prop :=
  ∀ h f made, start ≤ h.length → h ++ [.spawn (some f) made] <+: S.history →
    grant h = made.isSome

variable {prog : Program} {grant : List Event → Bool} {M : Machine} {start : Nat}

/-- **A yield** is the machine's, whether or not another fiber is ready. -/
theorem Paced.yields {t : Nat} (h : Paced out good S q M) (hpc : S.pc = .fiber t)
    (hrun : M.running = some (S.s.mem.entry t)) (hqueue : M.queue = ready_names S q)
    (hprog : prog S.history (S.s.mem.entry t) = .yield) :
    Pace out good (drive B prog S) (M.step prog grant) := by
  have hstep : M.step prog grant = { M with
      running := none
      queue := M.queue ++ [S.s.mem.entry t]
      history := M.history ++ [.yield (S.s.mem.entry t)] } := by
    simp only [Machine.step, hrun, h.history, hprog]
  have hhist : M.history ++ [.yield (S.s.mem.entry t)] = (yielded S t).history := by
    rw [h.history]
    exact (history_of_snoc S (yielded S t) rfl rfl).symm
  rw [drive_yield hpc hprog, hstep]
  rcases h.inv.yield hpc with ⟨rfl, h', hpc', hself, -⟩ | ⟨hne, h', hpc', hnames, -⟩
  · -- the shortcut: the machine has yet to take the fiber out again
    have hself' : (yielded S t).s.mem.entry t = S.s.mem.entry t :=
      Option.some.inj ((running_fiber hpc').symm.trans hself)
    refine ⟨[], h', h.spawned, hhist, ?_⟩
    unfold Place
    rw [hpc']
    refine Or.inr ⟨rfl, rfl, ?_⟩
    rw [hself']
    simp [hqueue, ready_names]
  · refine ⟨q ++ [t], h', h.spawned, hhist, ?_⟩
    unfold Place
    rw [hpc']
    exact ⟨rfl, by rw [hnames, ← hqueue]⟩

/-- **A spawn** is the machine's, with the outcome that `grant` tells. -/
theorem Paced.spawns (H : Honest T B out good) {t : Nat} (h : Paced out good S q M)
    (hpc : S.pc = .fiber t) (hrun : M.running = some (S.s.mem.entry t))
    (hqueue : M.queue = ready_names S q) (hstart : start ≤ S.history.length)
    (hgrant : Agrees start grant (drive B prog S))
    (hprog : prog S.history (S.s.mem.entry t) = .spawn) :
    Pace out good (drive B prog S) (M.step prog grant) := by
  have hrun' : S.running = some (S.s.mem.entry t) := running_fiber hpc
  rw [drive_spawn hpc hprog] at hgrant ⊢
  rcases h.inv.spawn H with ⟨q', h', hnames, hpc', hself, hspawned, hevents, -⟩ |
    ⟨s', -, hu, h', heq⟩
  · -- a task and a stack were there
    rw [hrun'] at hevents hself
    have hhist := history_of_snoc _ _ hevents rfl
    have hyes : grant M.history = true := by
      rw [h.history]
      refine hgrant S.history (S.s.mem.entry t) (some S.spawned) hstart ?_
      rw [hhist]
    have hself' : (Sched.spawn B S).s.mem.entry t = S.s.mem.entry t :=
      Option.some.inj ((running_fiber (hpc'.trans hpc)).symm.trans hself)
    have hstep : M.step prog grant = { M with
        queue := M.queue ++ [M.spawned]
        spawned := M.spawned + 1
        history := M.history ++ [.spawn (some (S.s.mem.entry t)) (some M.spawned)] } := by
      simp only [Machine.step, hrun, h.history, hprog]
      rw [← h.history, if_pos hyes, h.history]
    rw [hstep]
    refine ⟨q', h', ?_, ?_, ?_⟩
    · rw [hspawned, h.spawned]
    · rw [hhist, h.history, h.spawned]
    · unfold Place
      rw [hpc', hpc]
      exact Or.inl ⟨by rw [hself']; exact hrun, by rw [hnames, hqueue, h.spawned]⟩
  · -- one of them was refused
    rw [hrun'] at heq h'
    rw [heq] at hgrant ⊢
    have hhist := history_of_snoc S { S with
      s := s', events := S.events ++ [.spawn (some (S.s.mem.entry t)) none] } rfl rfl
    have hno : grant M.history = false := by
      rw [h.history]
      refine hgrant S.history (S.s.mem.entry t) none hstart ?_
      rw [hhist]
    have hstep : M.step prog grant = { M with
        history := M.history ++ [.spawn (some (S.s.mem.entry t)) none] } := by
      simp only [Machine.step, hrun, h.history, hprog]
      rw [← h.history, if_neg (by simp [hno]), h.history]
    rw [hstep]
    refine ⟨q, h', h.spawned, ?_, ?_⟩
    · rw [hhist, h.history]
    · unfold Place ready_names
      simp only [hpc, hu.mem]
      exact Or.inl ⟨hrun, hqueue⟩

/-- **A return** is the machine's; the task becomes the zombie. -/
theorem Paced.returns {t : Nat} (h : Paced out good S q M) (hpc : S.pc = .fiber t)
    (hrun : M.running = some (S.s.mem.entry t)) (hqueue : M.queue = ready_names S q)
    (hprog : prog S.history (S.s.mem.entry t) = .ret) :
    Pace out good (drive B prog S) (M.step prog grant) := by
  have hstep : M.step prog grant = { M with
      running := none, history := M.history ++ [.ret (S.s.mem.entry t)] } := by
    simp only [Machine.step, hrun, h.history, hprog]
  rw [drive_ret hpc hprog, hstep]
  refine ⟨q, (h.inv.finish hpc).1, h.spawned, ?_, rfl, hqueue⟩
  rw [h.history]
  exact (history_of_snoc S (returned S t) rfl rfl).symm

/-- **The running fiber's next step** is the machine's next step. -/
theorem Paced.fiber (H : Honest T B out good) {t : Nat} (h : Paced out good S q M)
    (hpc : S.pc = .fiber t) (hrun : M.running = some (S.s.mem.entry t))
    (hqueue : M.queue = ready_names S q) (hstart : start ≤ S.history.length)
    (hgrant : Agrees start grant (drive B prog S)) :
    Pace out good (drive B prog S) (M.step prog grant) := by
  cases hprog : prog S.history (S.s.mem.entry t) with
  | yield => exact h.yields hpc hrun hqueue hprog
  | spawn => exact h.spawns H hpc hrun hqueue hstart hgrant hprog
  | ret => exact h.returns hpc hrun hqueue hprog

/-- On the shortcut the machine takes the running fiber out of its queue again. -/
theorem Paced.mid (prog : Program) (grant : List Event → Bool) {t : Nat}
    (h : Paced out good S [] M) (hpc : S.pc = .fiber t) (hrun : M.running = none)
    (hqueue : M.queue = [S.s.mem.entry t]) :
    Paced out good S [] (M.step prog grant) ∧
      (M.step prog grant).running = some (S.s.mem.entry t) ∧
      (M.step prog grant).queue = ready_names S [] := by
  have hstep : M.step prog grant = { M with running := some (S.s.mem.entry t), queue := [] } := by
    simp only [Machine.step, hrun, hqueue]
  rw [hstep]
  refine ⟨⟨h.inv, h.spawned, h.history, ?_⟩, rfl, rfl⟩
  unfold Place
  rw [hpc]
  exact Or.inl ⟨rfl, rfl⟩

/-- **A turn of the loop**: the run ends, or both take the same fiber. -/
theorem Paced.loop (prog : Program) (grant : List Event → Bool) (H : Honest T B out good)
    (h : Paced out good S q M) (hpc : S.pc = .loop) :
    (2 ^ 32 ∣ q.length ∧ (drive B prog S).pc = .host ∧ Paced out good (drive B prog S) q M) ∨
    ((drive B prog S).pc ≠ .host ∧ Pace out good (drive B prog S) (M.step prog grant)) := by
  obtain ⟨hrun, hqueue⟩ : M.running = none ∧ M.queue = ready_names S q := by
    have := h.place
    unfold Place at this
    rwa [hpc] at this
  rw [drive_loop hpc]
  rcases h.inv.turn H hpc with ⟨hdvd, h', hpc', hnames, hspawned, hevents, -⟩ |
    ⟨t, q', rfl, -, h', hpc', hself, hnames, hspawned, hevents, -⟩
  · refine Or.inl ⟨hdvd, hpc', h', ?_, ?_, ?_⟩
    · rw [hspawned, h.spawned]
    · rw [history_of_freed hevents, h.history]
    · unfold Place
      rw [hpc']
      exact ⟨hrun, by rw [hnames, hqueue]⟩
  · have hstep : M.step prog grant = { M with
        running := some (S.s.mem.entry t), queue := q'.map S.s.mem.entry } := by
      simp only [Machine.step, hrun, hqueue, ready_names, List.map_cons]
    have hself' : (Sched.turn B S).s.mem.entry t = S.s.mem.entry t :=
      Option.some.inj ((running_fiber hpc').symm.trans hself)
    rw [hstep]
    refine Or.inr ⟨by rw [hpc']; simp, q', h', ?_, ?_, ?_⟩
    · rw [hspawned, h.spawned]
    · rw [history_of_freed hevents, h.history]
    · unfold Place
      rw [hpc']
      exact Or.inl ⟨by rw [hself'], hnames.symm⟩

/-- A fiber's step does not end the run. -/
theorem drive_fiber_pc {t : Nat} (hpc : S.pc = .fiber t) : (drive B prog S).pc ≠ .host := by
  cases hprog : prog S.history (S.s.mem.entry t) with
  | yield =>
      rw [drive_yield hpc hprog]
      simp only [yielded]
      split <;> simp
  | spawn =>
      rw [drive_spawn hpc hprog]
      unfold spawn
      split <;> simp [hpc]
  | ret =>
      rw [drive_ret hpc hprog]
      simp [returned]

/-- **The machine follows the run.** -/
theorem Pace.follow (H : Honest T B out good) (h : Pace out good S M)
    (hstart : start ≤ S.history.length) (hgrant : Agrees start grant (drive B prog S)) :
    ∃ k, Pace out good (drive B prog S) ((Machine.step prog grant)^[k] M) := by
  obtain ⟨q, h⟩ := h
  have hplace := h.place
  unfold Place at hplace
  cases hpc : S.pc with
  | host =>
      rw [drive_host hpc]
      exact ⟨0, q, h⟩
  | loop =>
      rcases h.loop prog grant H hpc with ⟨-, -, h'⟩ | ⟨-, h'⟩
      · exact ⟨0, q, h'⟩
      · exact ⟨1, h'⟩
  | fiber t =>
      simp only [hpc] at hplace
      rcases hplace with ⟨hrun, hqueue⟩ | ⟨rfl, hrun, hqueue⟩
      · exact ⟨1, h.fiber H hpc hrun hqueue hstart hgrant⟩
      · obtain ⟨h₁, hrun₁, hqueue₁⟩ := h.mid prog grant hpc hrun hqueue
        exact ⟨2, h₁.fiber H hpc hrun₁ hqueue₁ hstart hgrant⟩
  | trap =>
      have := h.inv.pc
      unfold PcOk at this
      rw [hpc] at this
      exact this.elim

/-! ## §6. The run from the host's call on. -/

theorem execution_succ (prog : Program) (S : Sys T γ) (n : Nat) :
    execution B prog S (n + 1) = drive B prog (execution B prog S n) :=
  Function.iterate_succ_apply' ..

theorem spawn_events (B : Backing γ) (S : Sys T γ) : S.events <+: (spawn B S).events := by
  unfold spawn
  split <;> exact List.prefix_append ..

theorem turn_events (B : Backing γ) (S : Sys T γ) : S.events <+: (turn B S).events := by
  unfold turn
  split
  · exact List.prefix_refl _
  · split
    · split <;> exact List.prefix_append ..
    · exact List.prefix_append ..

theorem drive_events (B : Backing γ) (prog : Program) (S : Sys T γ) :
    S.events <+: (drive B prog S).events := by
  cases hpc : S.pc with
  | host =>
      rw [drive_host hpc]
  | loop =>
      rw [drive_loop hpc]
      exact turn_events B S
  | fiber t =>
      cases hprog : prog S.history (S.s.mem.entry t) with
      | yield =>
          rw [drive_yield hpc hprog]
          exact List.prefix_append ..
      | spawn =>
          rw [drive_spawn hpc hprog]
          exact spawn_events B S
      | ret =>
          rw [drive_ret hpc hprog]
          exact List.prefix_append ..
  | trap =>
      simp [drive, next_action, hpc]

/-- A run that has ended stays where it is. -/
theorem execution_stopped {n m : Nat} (hend : (execution B prog S n).pc = .host) (hle : n ≤ m) :
    execution B prog S m = execution B prog S n :=
  orbit_stable (f := drive B prog) (P := fun S' => S' = execution B prog S n)
    (fun S' heq => by rw [heq]; exact drive_host hend) hle rfl

/-- The history only grows. -/
theorem execution_history {n m : Nat} (hle : n ≤ m) :
    (execution B prog S n).history <+: (execution B prog S m).history := by
  refine orbit_stable (f := drive B prog) (P := fun S' =>
    (execution B prog S n).history <+: S'.history) (fun S' hp => ?_) hle (List.prefix_refl _)
  exact hp.trans ((drive_events B prog S').filter _)

/-- The machine starts where the scheduler is. -/
theorem Inv.paced_start (B : Backing γ) (prog : Program) (grant : List Event → Bool)
    (h : Inv out good S q) (hpc : S.pc = .host) (hq : Queued S q) :
    Pace out good (execution B prog S 0) (reference prog grant S 0) :=
  ⟨q, h.enter hpc, rfl, rfl, rfl, (hq.host hpc).symm⟩

/-- **At every test of the loop, the number of unfinished fibers is zero or no multiple of
`2 ^ 32`.** -/
def Tested (B : Backing γ) (prog : Program) (S : Sys T γ) : Prop :=
  ∀ n, (execution B prog S n).pc = .loop →
    ¬ (0 < (execution B prog S n).unfinished ∧ 2 ^ 32 ∣ (execution B prog S n).unfinished)

theorem Inv.unfinished_loop (h : Inv out good S q) (hpc : S.pc = .loop) :
    S.unfinished = q.length := by
  have hc := h.pc
  unfold PcOk at hc
  rw [hpc] at hc
  rw [h.unfinished_eq, unreturned_length]
  simp only at hc
  rw [hc]
  rfl

/-- The machine keeps pace all along. -/
theorem Inv.paced (H : Honest T B out good) (h : Inv out good S q) (hpc : S.pc = .host)
    (hq : Queued S q) (hgrant : ∀ n, Agrees S.history.length grant (execution B prog S n)) (n : Nat) :
    ∃ m, Pace out good (execution B prog S n) (reference prog grant S m) := by
  have h0 : Pace out good (execution B prog S 0) (reference prog grant S 0) :=
    h.paced_start B prog grant hpc hq
  refine orbit_follow (f := drive B prog) (g := Machine.step prog grant)
    (s := { S with pc := .loop }) (t := S.machine) h0 (fun k u hR => ?_) n
  have hstart : S.history.length ≤ (execution B prog S k).history.length :=
    (execution_history (S := S) (Nat.zero_le k)).length_le
  have hnext := hgrant (k + 1)
  rw [execution_succ] at hnext
  rw [Function.iterate_succ_apply']
  exact hR.follow H hstart hnext

/-! ## §7. The run covers the machine's steps. -/

/-- If the tests are as they should be, nothing is ready when the run has ended. -/
theorem Inv.ended (H : Honest T B out good) (h : Inv out good S q) (hpc : S.pc = .host)
    (hq : Queued S q) (htest : Tested B prog S)
    (hgrant : ∀ n, Agrees S.history.length grant (execution B prog S n)) (n : Nat)
    (hend : (execution B prog S n).pc = .host) : (execution B prog S n).unfinished = 0 := by
  induction n with
  | zero => exact absurd hend (by simp [execution])
  | succ n ih =>
      obtain ⟨m, q', h'⟩ := h.paced H hpc hq hgrant n
      rw [execution_succ] at hend ⊢
      cases hpc' : (execution B prog S n).pc with
      | host =>
          rw [drive_host hpc']
          exact ih hpc'
      | loop =>
          rcases h'.loop prog grant H hpc' with ⟨hdvd, -, h''⟩ | ⟨hne, -⟩
          · have hlen := h'.inv.unfinished_loop hpc'
            have htest' := htest n hpc'
            rw [hlen] at htest'
            have hq : q'.length = 0 := by
              by_contra hpos
              exact htest' ⟨Nat.pos_of_ne_zero hpos, hdvd⟩
            have hc := h''.inv.pc
            unfold PcOk at hc
            rw [hend] at hc
            rw [h''.inv.unfinished_eq, unreturned_length, hq, hc.1]
            rfl
          · exact absurd hend hne
      | fiber t => exact absurd hend (drive_fiber_pc hpc')
      | trap =>
          have hc := h'.inv.pc
          unfold PcOk at hc
          rw [hpc'] at hc
          exact hc.elim

/-- A machine with nothing ready and nothing running has ended. -/
theorem Machine.step_ended (hrun : M.running = none) (hqueue : M.queue = []) :
    M.step prog grant = M := by
  simp only [Machine.step, hrun, hqueue]

/-- With a fiber ready, the machine's second step is a fiber's. -/
theorem Machine.two_steps (prog : Program) (grant : List Event → Bool)
    (hrun : M.running = none) (hqueue : M.queue ≠ []) :
    ∃ e, ((M.step prog grant).step prog grant).history = M.history ++ [e] := by
  obtain ⟨f, queue, hcons⟩ := List.exists_cons_of_ne_nil hqueue
  have hstep : M.step prog grant = { M with running := some f, queue := queue } := by
    simp only [Machine.step, hrun, hcons]
  rw [hstep]
  cases hprog : prog M.history f with
  | yield => exact ⟨.yield f, by simp only [Machine.step, hprog]⟩
  | ret => exact ⟨.ret f, by simp only [Machine.step, hprog]⟩
  | spawn =>
      cases hgrant : grant M.history with
      | true =>
          exact ⟨.spawn (some f) (some M.spawned), by
            simp only [Machine.step, hprog, hgrant, if_true]⟩
      | false =>
          exact ⟨.spawn (some f) none, by
            simp only [Machine.step, hprog, hgrant, Bool.false_eq_true, if_false]⟩

/-- **The run follows the machine.** -/
theorem Inv.covered (H : Honest T B out good) (h : Inv out good S q) (hpc : S.pc = .host)
    (hq : Queued S q) (htest : Tested B prog S)
    (hgrant : ∀ n, Agrees S.history.length grant (execution B prog S n)) (m : Nat) :
    ∃ n, Pace out good (execution B prog S n) (reference prog grant S m) := by
  have h0 : Pace out good (execution B prog S 0) (reference prog grant S 0) :=
    h.paced_start B prog grant hpc hq
  refine orbit_cover (f := drive B prog) (g := Machine.step prog grant)
    (s := { S with pc := .loop }) (t := S.machine) h0 (fun n u hR => ?_) m
  have hstart : S.history.length ≤ (execution B prog S n).history.length :=
    (execution_history (S := S) (Nat.zero_le n)).length_le
  have hnext := hgrant (n + 1)
  rw [execution_succ] at hnext
  change Pace out good (execution B prog S n) u at hR
  show ∃ k, Pace out good (execution B prog S (n + k)) (u.step prog grant)
  obtain ⟨q', h'⟩ := hR
  have hplace := h'.place
  unfold Place at hplace
  cases hpc' : (execution B prog S n).pc with
  | host =>
      simp only [hpc'] at hplace
      -- both have ended
      have hzero := h.ended H hpc hq htest hgrant n hpc'
      rw [h'.inv.unfinished_eq, unreturned_length] at hzero
      obtain rfl : q' = [] := List.eq_nil_of_length_eq_zero (by omega)
      rw [Machine.step_ended hplace.1 hplace.2]
      exact ⟨0, [], h'⟩
  | loop =>
      simp only [hpc'] at hplace
      rcases h'.loop prog grant H hpc' with ⟨hdvd, -, -⟩ | ⟨-, h''⟩
      · -- the counter's test has ended the run, which `Tested` allows only with no fiber left
        have htest' := htest n hpc'
        rw [h'.inv.unfinished_loop hpc'] at htest'
        have hq : q'.length = 0 := by
          by_contra hpos
          exact htest' ⟨Nat.pos_of_ne_zero hpos, hdvd⟩
        obtain rfl : q' = [] := List.eq_nil_of_length_eq_zero hq
        rw [Machine.step_ended hplace.1 hplace.2]
        exact ⟨0, [], h'⟩
      · exact ⟨1, by rw [execution_succ]; exact h''⟩
  | fiber t =>
      simp only [hpc'] at hplace
      rcases hplace with ⟨hrun, hqueue⟩ | ⟨rfl, hrun, hqueue⟩
      · refine ⟨1, ?_⟩
        rw [execution_succ]
        exact h'.fiber H hpc' hrun hqueue hstart hnext
      · -- on the shortcut the machine catches up without a step of the scheduler
        obtain ⟨h₁, -, -⟩ := h'.mid prog grant hpc' hrun hqueue
        exact ⟨0, [], h₁⟩
  | trap =>
      have hc := h'.inv.pc
      unfold PcOk at hc
      rw [hpc'] at hc
      exact hc.elim

/-! ## §8. The outcomes of the spawns. -/

/-- What a step of the machine adds to the history, and how a spawn's outcome is decided. -/
theorem Machine.step_history (prog : Program) (grant : List Event → Bool) (M : Machine) :
    (M.step prog grant).history = M.history ∨
      ∃ e, (M.step prog grant).history = M.history ++ [e] ∧
        ∀ f made, e = .spawn f made → grant M.history = made.isSome := by
  unfold Machine.step
  split
  · split
    · exact Or.inl rfl
    · exact Or.inl rfl
  · split
    · exact Or.inr ⟨_, rfl, by simp⟩
    · split
      · rename_i hgrant
        exact Or.inr ⟨_, rfl, by simp [hgrant]⟩
      · rename_i hgrant
        exact Or.inr ⟨_, rfl, by simp_all⟩
    · exact Or.inr ⟨_, rfl, by simp⟩

theorem reference_succ (prog : Program) (grant : List Event → Bool) (S : Sys T γ) (m : Nat) :
    reference prog grant S (m + 1) = (reference prog grant S m).step prog grant :=
  Function.iterate_succ_apply' ..

/-- The machine's histories tell what `grant` said. -/
theorem reference_grants (m : Nat) {h : List Event} {f made : Option Nat}
    (hlen : S.history.length ≤ h.length)
    (hpre : h ++ [.spawn f made] <+: (reference prog grant S m).history) :
    grant h = made.isSome := by
  induction m with
  | zero =>
      have := hpre.length_le
      simp only [List.length_append, List.length_singleton] at this
      change h.length + 1 ≤ S.history.length at this
      omega
  | succ m ih =>
      rw [reference_succ] at hpre
      rcases Machine.step_history prog grant (reference prog grant S m) with he | ⟨e, he, hspawn⟩
      · exact ih (he ▸ hpre)
      · rw [he] at hpre
        rcases List.prefix_concat_iff.mp hpre with heq | hpre'
        · obtain ⟨rfl, he'⟩ := List.append_inj' heq rfl
          exact hspawn f made (by simpa using he'.symm)
        · exact ih hpre'

/-- Some `grant` tells the outcomes of all spawns of the run. -/
theorem exists_agrees (B : Backing γ) (prog : Program) (S : Sys T γ) :
    ∃ grant, ∀ n, Agrees S.history.length grant (execution B prog S n) := by
  classical
  refine ⟨fun h => decide (∃ n f g, h ++ [.spawn f (some g)] <+: (execution B prog S n).history),
    fun n h f made _ hpre => ?_⟩
  cases made with
  | some g => exact decide_eq_true ⟨n, some f, g, hpre⟩
  | none =>
      refine decide_eq_false ?_
      rintro ⟨n', f', g, hpre'⟩
      have h₁ := hpre.trans (execution_history (Nat.le_max_left n n'))
      have h₂ := hpre'.trans (execution_history (Nat.le_max_right n n'))
      have heq := (List.prefix_of_prefix_length_le h₁ h₂ (by simp)).eq_of_length (by simp)
      simp at heq

/-! ## §9. The two are the same machine. -/

/-- **When the run is round robin.**  From any state in which the host can call it, and for any
programs, `cfiber_scheduler_run` executes exactly the fiber steps of the reference machine if and
only if no test of the loop sees a positive multiple of `2 ^ 32` fibers. -/
theorem round_robin_iff (H : Honest T B out good) {sizeof_task : Nat} {config : Config}
    {m : TaskMem} {c : γ} {s : Scheduler T γ}
    (hinit : cfiber_scheduler_init_ext T sizeof_task config m c = some s) (hg : good c)
    (hout : out c = []) {actions : List Action}
    (hrun : exec (step B) (boot s) actions = some S) (hhost : S.pc = .host) (prog : Program) :
    RoundRobin B prog S ↔ Tested B prog S := by
  obtain ⟨q, h, hq⟩ := queued_run H hinit hg hout hrun
  constructor
  · rintro ⟨grant, hsame, hcover⟩ n hloop ⟨hpos, hdvd⟩
    have hgrant : ∀ n, Agrees S.history.length grant (execution B prog S n) := by
      intro n h' f made hlen hpre
      obtain ⟨m, hm⟩ := hsame n
      exact reference_grants m hlen (hm ▸ hpre)
    obtain ⟨m, q', h'⟩ := h.paced H hhost hq hgrant n
    have hlen := h'.inv.unfinished_loop hloop
    rw [hlen] at hpos hdvd
    -- the machine goes on with the head of the queue, and so must the run
    obtain ⟨e, he⟩ : ∃ e, (reference prog grant S (m + 2)).history
        = (execution B prog S n).history ++ [e] := by
      obtain ⟨hidle, hqueue⟩ : (reference prog grant S m).running = none ∧
          (reference prog grant S m).queue = ready_names (execution B prog S n) q' := by
        have := h'.place
        unfold Place at this
        rwa [hloop] at this
      obtain ⟨e, he⟩ := Machine.two_steps prog grant hidle (by
        rw [hqueue]
        intro hnil
        rw [ready_names, List.map_eq_nil_iff] at hnil
        rw [hnil] at hpos
        exact absurd hpos (by simp))
      refine ⟨e, ?_⟩
      rw [reference_succ, reference_succ, he, h'.history]
    obtain ⟨k, hk⟩ := hcover (m + 2)
    rw [he] at hk
    -- but the run ends here
    have hstop : (execution B prog S (n + 1)).pc = .host ∧
        (execution B prog S (n + 1)).history = (execution B prog S n).history := by
      rw [execution_succ, drive_loop hloop]
      rcases h'.inv.turn H hloop with ⟨-, -, hpc', -, -, hevents, -⟩ | ⟨t, q'', -, hndvd, -⟩
      · exact ⟨hpc', history_of_freed hevents⟩
      · exact absurd hdvd hndvd
    have hle : (execution B prog S k).history.length ≤ (execution B prog S n).history.length := by
      rcases Nat.lt_or_ge n k with hnk | hkn
      · rw [execution_stopped hstop.1 hnk, hstop.2]
      · exact (execution_history hkn).length_le
    rw [← hk, List.length_append, List.length_singleton] at hle
    omega
  · intro htest
    obtain ⟨grant, hgrant⟩ := exists_agrees B prog S
    refine ⟨grant, fun n => ?_, fun m => ?_⟩
    · obtain ⟨m, q', h'⟩ := h.paced H hhost hq hgrant n
      exact ⟨m, h'.history.symm⟩
    · obtain ⟨n, q', h'⟩ := h.covered H hhost hq htest hgrant m
      exact ⟨n, h'.history⟩

/-! ## §10. A run, and the run that ends at once. -/

/-- Each fiber yields once and then returns. -/
def yield_once : Program := fun es f => if .yield f ∈ es then .ret else .yield

theorem round_robin_iff_bump : ∃ s S, small = some s ∧
    exec (step bump) (boot s) [.spawn, .spawn] = some S ∧ S.pc = .host ∧
      (RoundRobin bump yield_once S ↔ Tested bump yield_once S) := by
  have hsome : (small.bind fun s => (exec (step bump) (boot s) [.spawn, .spawn]).filter
      fun S => S.pc = .host).isSome = true := by
    decide +kernel
  obtain ⟨S, hS⟩ := Option.isSome_iff_exists.mp hsome
  obtain ⟨s, hs, hfilter⟩ := Option.bind_eq_some_iff.mp hS
  obtain ⟨hrun, hhost⟩ := Option.filter_eq_some_iff.mp hfilter
  have hhost' : S.pc = .host := by simpa using hhost
  exact ⟨s, S, hs, hrun, hhost', round_robin_iff bump_honest hs
    ⟨rfl, fun _ h => absurd h List.not_mem_nil⟩ rfl hrun hhost' yield_once⟩

/-- **With `2 ^ 32` fibers seeded `cfiber_scheduler_run` returns without executing any**, where the
reference machine executes the first. -/
theorem run_skips_all : ∃ s actions S, small = some s ∧
    exec (step bump) (boot s) actions = some S ∧ S.pc = .host ∧ S.ready.length = 2 ^ 32 ∧
      (∀ n, (execution bump yield_once S n).history = S.history) ∧
      ¬ RoundRobin bump yield_once S := by
  obtain ⟨s, hs⟩ : ∃ s, small = some s := ⟨_, rfl⟩
  obtain ⟨S, -, hrun, -, hhost, hcount, -⟩ := bump_seeds hs (2 ^ 32) (Nat.le_refl _)
  have hg : bumpOk (64, []) := ⟨rfl, fun _ h => absurd h List.not_mem_nil⟩
  obtain ⟨q, h, hq⟩ := queued_run bump_honest hs hg rfl hrun
  obtain ⟨q', h', -, -, hplace⟩ := h.paced_start bump yield_once (fun _ => true) hhost hq
  have hloop : (execution bump yield_once S 0).pc = .loop := rfl
  have hlen : q'.length = 2 ^ 32 := by
    rw [← h'.unfinished_loop hloop]
    exact hcount
  have hready : S.ready.length = 2 ^ 32 := by
    have hqueue : fifo S.history = ready_names (execution bump yield_once S 0) q' := hplace.2
    rw [ready_fifo bump_honest hs hg rfl hrun hhost, hqueue, ready_names, List.length_map, hlen]
  have hstop : (execution bump yield_once S 1).pc = .host ∧
      (execution bump yield_once S 1).history = S.history := by
    rw [execution_succ, drive_loop hloop]
    rcases h'.turn bump_honest hloop with ⟨-, -, hpc', -, -, hevents, -⟩ | ⟨t, q'', -, hndvd, -⟩
    · exact ⟨hpc', history_of_freed hevents⟩
    · exact absurd ⟨1, by rw [hlen, Nat.mul_one]⟩ hndvd
  have hall : ∀ n, (execution bump yield_once S n).history = S.history := by
    intro n
    rcases Nat.eq_zero_or_pos n with rfl | hpos
    · rfl
    · rw [execution_stopped hstop.1 hpos]
      exact hstop.2
  refine ⟨s, _, S, hs, hrun, hhost, hready, hall, ?_⟩
  rintro ⟨grant, -, hcover⟩
  have hqueue : fifo S.history ≠ [] := by
    intro hnil
    rw [ready_fifo bump_honest hs hg rfl hrun hhost, hnil] at hready
    exact absurd hready (by simp)
  obtain ⟨e, he⟩ := Machine.two_steps yield_once grant (M := S.machine) rfl hqueue
  obtain ⟨n, hn⟩ := hcover 2
  rw [reference_succ, reference_succ, hall n] at hn
  have hsnoc : S.history ++ [e] = S.history := he.symm.trans hn
  simp at hsnoc

end CFiber.Sched
