/-
  CFiber.Ev.Moves — what a step of the system can do.

  A step makes one `Move`: it changes one fiber in one of nine ways, or none.  `Moved` says what a
  move changes and what it leaves alone; `Labelled` ties it to the action that was taken, `Ctl` to
  the calls on the epoll object.  `step_does` is the only place where the step function is taken
  apart: every property of the system is derived from it.
-/
import CFiber.Base.Run
import CFiber.Ev.Loop

namespace CFiber.Ev

open CFiber.Base CFiber.Memory

variable {T : Target} {γ σ κ δ : Type}
variable {L : Libc γ} {P : StackPool σ} {K : Kernel κ δ}
variable {out : γ → List Region} {good : γ → Prop}

/-! ## §1. Moves. -/

inductive Move where
  | quiet
  | spawn (f : Nat) (gen : UInt64) (stack : Stack)
  | dispatch (f : Nat)
  | yield (f : Nat)
  | park (f : Nat) (kind : ParkKind) (fd : Int) (deadline : Option UInt64)
  | finish (f : Nat)
  | reap (f : Nat)
  | wake (f : Nat) (status : EvStatus)
  | permit (f : Nat)
  | consume (f : Nat)
  deriving DecidableEq, Repr

/-- The fiber that changes. -/
def Move.fiber : Move → Option Nat
  | .quiet => none
  | .spawn f _ _ | .dispatch f | .yield f | .park f _ _ _ | .finish f | .reap f | .wake f _
  | .permit f | .consume f => some f

/-- The state the fiber is in before. -/
def Move.pre : Move → FiberView → Prop
  | .quiet, _ => True
  | .spawn _ _ _, v => v.state = .FB_FREE
  | .dispatch _, v => v.state = .FB_READY
  | .yield _, v | .park _ _ _ _, v | .finish _, v => v.state = .FB_RUNNING
  | .reap _, v => v.state = .FB_ZOMBIE
  | .wake _ _, v => v.state = .FB_PARKED
  | .permit _, v => v.state ≠ .FB_FREE ∧ v.state ≠ .FB_ZOMBIE ∧
      ¬ (v.state = .FB_PARKED ∧ v.park = .PARK_ASYNC)
  | .consume _, v => v.state = .FB_RUNNING ∧ v.wake_pending = true

/-- What becomes of it. -/
def Move.view : Move → FiberView → FiberView
  | .quiet, v => v
  | .spawn _ gen stack, v => FiberView.spawned gen (v.enqueued + 1) stack
  | .dispatch _, v => { v with state := .FB_RUNNING, wait_fd := -1 }
  | .yield _, v => { v with state := .FB_READY, ctx := .yield, enqueued := v.enqueued + 1 }
  | .park _ kind fd deadline, v => v.parked kind fd deadline
  | .finish _, v => { v with state := .FB_ZOMBIE }
  | .reap _, v => { v with state := .FB_FREE, generation := v.generation + 1 }
  | .wake _ status, v => v.woken status
  | .permit _, v => { v with wake_pending := true }
  | .consume _, v => { v with wake_pending := false }

/-- What becomes of the descriptor it holds. -/
def Move.reg : Move → (before after : Int) → Prop
  | .spawn _ _ _, _, r' | .reap _, _, r' => r' = -1
  | .park _ kind fd _, r, r' => if kind = .PARK_FD then 0 ≤ fd ∧ r' = fd else r' = r
  | .wake _ status, r, r' => r' = -1 ∨ (status = .READY ∧ r' = r)
  | _, r, r' => r' = r

/-- What becomes of the ready queue. -/
def Move.queue : Move → (before after : List Nat) → Prop
  | .spawn f _ _, q, q' | .yield f, q, q' | .wake f _, q, q' => q' = q ++ [f]
  | .dispatch f, q, q' => q = f :: q'
  | _, q, q' => q' = q

/-- What becomes of the live fibers. -/
def Move.alive : Move → List Nat → List Nat
  | .spawn f _ _, l => f :: l
  | .reap f, l => l.erase f
  | _, l => l

/-- What becomes of the stack pool. -/
def Move.pool (P : StackPool σ) : Move → (before after : σ) → Prop
  | .quiet, p, p' => p' = p ∨
      ((P.cfiber_growable_stack_alloc p).1.mem_base = none ∧
        p' = (P.cfiber_growable_stack_alloc p).2)
  | .spawn _ _ stack, p, p' =>
      P.cfiber_growable_stack_alloc p = (stack, p') ∧ stack.mem_base ≠ none
  | .reap _, _, _ => True
  | _, p, p' => p' = p

/-- What a call that parks asks for: the kind of wait, the descriptor and the deadline. -/
def parking (r : Reactor T γ σ κ) : Action δ → Option (ParkKind × Int × Option UInt64)
  | .wait fd _ timeout_ns => some (.PARK_FD, fd, deadline_of r timeout_ns)
  | .sleep ns => some (.PARK_TIMER, -1, some (deadline_after r ns))
  | .wait_async timeout_ns => some (.PARK_ASYNC, -1, deadline_of r timeout_ns)
  | _ => none

/-! ## §2. The invariant. -/

/-- Who has control. -/
def PcOk : Pc → (current zombie : Option Nat) → Prop
  | .fiber f _, current, zombie => current = some f ∧ zombie = none
  | .back _ _, current, _ => current = none
  | _, current, zombie => current = none ∧ zombie = none

/-- **The invariant of the system**; `q` is the ready queue. -/
structure Ok (out : γ → List Region) (good : γ → Prop) (S : Sys T γ σ κ) (q : List Nat) : Prop where
  core : Core S.r S.alive q
  pool : Pool out good S.r S.alive
  control : PcOk S.pc S.r.current S.r.zombie

/-- The running fiber is the one in control. -/
theorem Ok.pc_of_running {S : Sys T γ σ κ} {q : List Nat} (hok : Ok out good S q) {f : Nat}
    (hrun : S.r.mem.state f = .FB_RUNNING) : ∃ e, S.pc = .fiber f e := by
  have hcur := (hok.core.roster.running f).mp hrun
  have hctl := hok.control
  cases hpc : S.pc with
  | fiber g e =>
      rw [hpc] at hctl
      obtain rfl : g = f := Option.some.inj (hctl.1.symm.trans hcur)
      exact ⟨e, rfl⟩
  | back g e => rw [hpc] at hctl; exact absurd (Eq.trans (Eq.symm hctl) hcur) (by simp)
  | _ => rw [hpc] at hctl; exact absurd (hctl.1.symm.trans hcur) (by simp)

/-- What no step undoes. -/
structure Lasting (out : γ → List Region) (s s' : Reactor T γ σ κ) (l' : List Nat) : Prop where
  held : ∀ r ∈ out s.libc, r ∈ out s'.libc
  blocks : ∀ p, IsBlock s.fibers p → IsBlock s'.fibers p
  repooled : ∀ p, s.repooled p ≤ s'.repooled p
  same : ∀ g ∈ l', s'.repooled g = s.repooled g

/-- What the move `m` changes. -/
structure Moved (out : γ → List Region) (P : StackPool σ) (S S' : Sys T γ σ κ) (m : Move)
    (q q' : List Nat) : Prop where
  alive : S'.alive = m.alive S.alive
  queue : m.queue q q'
  pre : ∀ f, m.fiber = some f → m.pre (view S.r f)
  self : ∀ f, m.fiber = some f → view S'.r f = m.view (view S.r f)
  others : ∀ g ∈ S.alive, m.fiber ≠ some g → view S'.r g = view S.r g
  reg : ∀ f, m.fiber = some f → m.reg (S.r.mem.reg_fd f) (S'.r.mem.reg_fd f)
  regs : ∀ g ∈ S.alive, m.fiber ≠ some g →
    S'.r.mem.reg_fd g = S.r.mem.reg_fd g ∨ S'.r.mem.reg_fd g = -1
  lasting : Lasting out S.r S'.r (m.alive S.alive)
  stack_pool : m.pool P S.r.stack_pool S'.r.stack_pool
  reaped : ∀ f, m = .reap f → S'.r.repooled f = S.r.repooled f + 1 ∧
    S'.r.stack_pool = P.cfiber_growable_stack_release (S.r.mem.stack f) S.r.stack_pool
  generation : ∀ f gen stack, m = .spawn f gen stack → gen = UInt64.ofNat (S.r.repooled f)

/-- What the move `m` has to do with the action `a`. -/
structure Labelled (S : Sys T γ σ κ) (a : Action δ) (S' : Sys T γ σ κ) (m : Move) : Prop where
  of_wake : ∀ f status, m = .wake f status → source S a = some (f, status)
  reached : ∀ f status, source S a = some (f, status) → S.r.mem.state f = .FB_PARKED →
    m = .wake f status
  of_permit : ∀ f, m = .permit f → waked S a = some f
  on_wake : ∀ f, waked S a = some f → m = .permit f ∨ m = .wake f .READY
  of_dispatch : ∀ f, m = .dispatch f → S'.ret = (view S.r f).returned.map .status
  of_consume : ∀ f, m = .consume f →
    (∃ t, a = .wait_async t) ∧ S'.ret = some (.status .READY) ∧ S'.pc = S.pc
  of_spawn : ∀ f gen stack, m = .spawn f gen stack → S'.ret = some (.spawned ⟨some f, gen⟩)
  of_park : ∀ f kind fd deadline, m = .park f kind fd deadline →
    parking S.r a = some (kind, fd, deadline) ∧ S'.ret = none
  clock : S'.r.clock = S.r.clock ∨ ∃ dt, a = .tick dt ∧ S'.r.clock = S.r.clock + dt
  calm : pending S'.pc ≠ [] → S'.r.current = none ∧
    (m = .quiet ∨ (∃ f, m = .permit f) ∨ ∃ f status, m = .wake f status)

/-- The calls on the epoll object. -/
inductive Ctl (K : Kernel κ δ) (S S' : Sys T γ σ κ) : Action δ → Move → Prop where
  /-- No call. -/
  | same {a : Action δ} {m : Move} : S'.r.epoll = S.r.epoll → (∀ f status, m ≠ .wake f status) →
      (∀ f fd deadline, m ≠ .park f .PARK_FD fd deadline) →
      (∀ e ∈ pending S'.pc, e ∈ pending S.pc) → Ctl K S S' a m
  | other {d : δ} : K.other d S.r.epoll = some S'.r.epoll → S'.pc = S.pc →
      Ctl K S S' (.other d) .quiet
  | poll {d : δ} {t : Int} {res : Except Errno (List Event)} :
      K.epoll_wait d t S.r.epoll = some (res, S'.r.epoll) →
      (∀ e ∈ pending S'.pc, ∃ evs, res = .ok evs ∧ e ∈ evs) → Ctl K S S' (.poll d) .quiet
  /-- A readiness event. -/
  | event {e : Event} {evs : List Event} {w : Nat} : S'.r.epoll = S.r.epoll →
      S.pc = .events (e :: evs) → S'.pc = .events evs → e.data = some w →
      Ctl K S S' .turn (.wake w .READY)
  /-- A registration is deleted. -/
  | gone {a : Action δ} {m : Move} {f : Nat} : Detached K S.r f S'.r.epoll → m.fiber = some f →
      S'.r.mem.reg_fd f = -1 → (∀ fd, a ≠ .close fd) → (∀ e ∈ pending S'.pc, e ∈ pending S.pc) →
      Ctl K S S' a m
  /-- A wait on a descriptor that failed. -/
  | refused {fd : Int} {dir : UInt32} {t : Int64} : Unarmed K S.r.epoll S'.r.epoll →
      pending S'.pc = [] → Ctl K S S' (.wait fd dir t) .quiet
  | dropped {fd : Int} {dir : UInt32} {t : Int64} {f : Nat} {k : κ} :
      Armed K S.r.epoll fd (epoll_events dir) f k →
      S'.r.epoll = (K.epoll_ctl .EPOLL_CTL_DEL fd 0 none k).2 → pending S'.pc = [] →
      Ctl K S S' (.wait fd dir t) .quiet
  /-- A wait on a descriptor. -/
  | armed {fd : Int} {dir : UInt32} {t : Int64} {f : Nat} {deadline : Option UInt64} : 0 ≤ fd →
      Armed K S.r.epoll fd (epoll_events dir) f S'.r.epoll → pending S'.pc = [] →
      Ctl K S S' (.wait fd dir t) (.park f .PARK_FD fd deadline)
  /-- A close, of a descriptor nobody holds, or whose holder is idle, or is parked on it. -/
  | close {fd : Int} : fd_owner_get S.r fd = none → S'.r.epoll = (K.close fd S.r.epoll).2 →
      pending S'.pc = [] → Ctl K S S' (.close fd) .quiet
  | close_idle {fd : Int} {f : Nat} {k : κ} : fd_owner_get S.r fd = some f → ¬ ParkedOn S.r f fd →
      Detached K S.r f k → S'.r.epoll = (K.close fd k).2 → pending S'.pc = [] →
      Ctl K S S' (.close fd) .quiet
  | close_cancel {fd : Int} {f : Nat} {k : κ} : fd_owner_get S.r fd = some f →
      ParkedOn S.r f fd → Detached K S.r f k → S'.r.epoll = (K.close fd k).2 →
      pending S'.pc = [] → Ctl K S S' (.close fd) (.wake f .CANCELLED)

/-- **What a step does.** -/
structure Does (P : StackPool σ) (K : Kernel κ δ) (out : γ → List Region) (good : γ → Prop)
    (S : Sys T γ σ κ) (a : Action δ) (S' : Sys T γ σ κ) (m : Move) (q q' : List Nat) : Prop where
  ok : Ok out good S' q'
  moved : Moved out P S S' m q q'
  label : Labelled S a S' m
  ctl : Ctl K S S' a m

/-! ## §3. Moves, one kind at a time. -/

section
variable {S S' : Sys T γ σ κ} {q q' : List Nat} {a : Action δ} {m : Move}

/-- A live fiber that did not just start was live before. -/
theorem Moved.alive_before (hm : Moved out P S S' m q q') {f : Nat} (hf : f ∈ S'.alive)
    (hne : m.fiber ≠ some f) : f ∈ S.alive := by
  rw [hm.alive] at hf
  cases m with
  | spawn g gen stack =>
      rcases List.mem_cons.mp hf with rfl | hf
      · exact absurd rfl hne
      · exact hf
  | reap g => exact List.mem_of_mem_erase hf
  | _ => exact hf

theorem Lasting.of_kept (H : LibcOk T L out good) {s s' : Reactor T γ σ κ} {l l' : List Nat}
    (hp : Pool out good s l) (hk : Kept L s s') : Lasting out s s' l' := by
  obtain ⟨-, hperm⟩ := hk.libc.sound H hp.sound
  refine ⟨fun r hr => hperm.mem_iff.mpr hr, ?_, ?_, ?_⟩
  · rw [hk.fibers]; exact fun p hb => hb
  · rw [hk.repooled]; exact fun p => Nat.le_refl _
  · rw [hk.repooled]; exact fun g _ => rfl

/-- The generations are part of the view. -/
theorem generation_of_view {s s' : Reactor T γ σ κ} {f : Nat} {v : FiberView}
    (hv : view s' = Function.update (view s) f v) (hg : v.generation = s.mem.generation f) :
    s'.mem.generation = s.mem.generation := by
  funext g
  have h := congrArg FiberView.generation (congrFun hv g)
  by_cases hgf : g = f
  · subst hgf
    rw [Function.update_self] at h
    exact h.trans hg
  · rw [Function.update_of_ne hgf] at h
    exact h

/-- A move of a live fiber that leaves the pool alone. -/
theorem Moved.of_kept (H : LibcOk T L out good) (hok : Ok out good S q) {f : Nat}
    (hm : m.fiber = some f) (hk : Kept L S.r S'.r)
    (hv : view S'.r = Function.update (view S.r) f (m.view (view S.r f)))
    (hsp : ∀ g gen stack, m ≠ .spawn g gen stack) (hrp : ∀ g, m ≠ .reap g)
    (halive : S'.alive = S.alive) (hq : m.queue q q') (hpre : m.pre (view S.r f))
    (hreg : m.reg (S.r.mem.reg_fd f) (S'.r.mem.reg_fd f))
    (hregs : ∀ g, g ≠ f →
      S'.r.mem.reg_fd g = S.r.mem.reg_fd g ∨ S'.r.mem.reg_fd g = -1) :
    Moved out P S S' m q q' := by
  have hal : m.alive S.alive = S.alive := by
    cases m with
    | spawn g gen stack => exact absurd rfl (hsp g gen stack)
    | reap g => exact absurd rfl (hrp g)
    | _ => rfl
  have hf : ∀ g, m.fiber = some g → g = f := by
    intro g hg
    rw [hm] at hg
    exact (Option.some.inj hg).symm
  refine ⟨by rw [hal]; exact halive, hq, ?pre, ?self, ?others, ?reg, ?regs, .of_kept H hok.pool hk,
    ?stack_pool,
    fun g hg => absurd hg (hrp g), fun g gen stack hg => absurd hg (hsp g gen stack)⟩
  case pre =>
    intro g hg
    obtain rfl := hf g hg
    exact hpre
  case self =>
    intro g hg
    obtain rfl := hf g hg
    rw [hv, Function.update_self]
  case others =>
    intro g _ hg
    have hgf : g ≠ f := fun e => hg (e ▸ hm)
    rw [hv, Function.update_of_ne hgf]
  case reg =>
    intro g hg
    obtain rfl := hf g hg
    exact hreg
  case regs =>
    intro g _ hg
    exact hregs g fun e => hg (e ▸ hm)
  case stack_pool =>
    have hp := hk.stack_pool
    cases m with
    | spawn g gen stack => exact absurd rfl (hsp g gen stack)
    | quiet => exact Or.inl hp
    | reap g => trivial
    | _ => exact hp

/-- No fiber changes. -/
theorem Moved.quiet (H : LibcOk T L out good) (hok : Ok out good S q) (hk : Kept L S.r S'.r)
    (hv : view S'.r = view S.r) (halive : S'.alive = S.alive)
    (hregs : ∀ g, S'.r.mem.reg_fd g = S.r.mem.reg_fd g ∨ S'.r.mem.reg_fd g = -1) :
    Moved out P S S' .quiet q q :=
  ⟨halive, rfl, nofun, nofun, fun g _ _ => by rw [hv], nofun, fun g _ _ => hregs g,
    .of_kept H hok.pool hk, Or.inl hk.stack_pool, nofun, nofun⟩

/-- Nothing to react to, and nothing left of the batch. -/
structure Plain (S : Sys T γ σ κ) (a : Action δ) (S' : Sys T γ σ κ) : Prop where
  source : source S a = none
  waked : waked S a = none
  pending : pending S'.pc = []
  clock : S'.r.clock = S.r.clock

/-- A step that brings nothing leaves one condition on the move. -/
theorem Plain.labelled (h : Plain S a S') (hw : ∀ f status, m ≠ .wake f status)
    (hp : ∀ f, m ≠ .permit f)
    (hd : ∀ f, m = .dispatch f → S'.ret = (view S.r f).returned.map .status)
    (hc : ∀ f, m = .consume f →
      (∃ t, a = .wait_async t) ∧ S'.ret = some (.status .READY) ∧ S'.pc = S.pc)
    (hs : ∀ f gen stack, m = .spawn f gen stack → S'.ret = some (.spawned ⟨some f, gen⟩))
    (hk : ∀ f kind fd deadline, m = .park f kind fd deadline →
      parking S.r a = some (kind, fd, deadline) ∧ S'.ret = none) : Labelled S a S' m := by
  refine ⟨fun f status e => absurd e (hw f status), ?_, fun f e => absurd e (hp f), ?_, hd, hc, hs,
    hk, Or.inl h.clock, fun e => absurd h.pending e⟩
  · intro f status he
    rw [h.source] at he
    exact absurd he (by simp)
  · intro f he
    rw [h.waked] at he
    exact absurd he (by simp)

/-! ## §4. Steps that change no fiber. -/

/-- The reactor with another epoll object, error number and clock. -/
def retuned (s : Reactor T γ σ κ) (k : κ) (e : Errno) (c : UInt64) : Reactor T γ σ κ :=
  { s with epoll := k, errno := e, clock := c }

theorem Core.retuned {s : Reactor T γ σ κ} {l : List Nat} (h : Core s l q) (k : κ) (e : Errno)
    (c : UInt64) : Core (retuned s k e c) l q :=
  ⟨h.roster, h.links, h.timed, h.owners, h.waits⟩

theorem Woke.retuned {s s' : Reactor T γ σ κ} {f : Nat} {status : EvStatus} {l : List Nat}
    (h : Woke s s' f status l q) (k : κ) (e : Errno) :
    Woke s (retuned s' k e s'.clock) f status l q :=
  ⟨h.core.retuned k e s'.clock, h.view, h.others, h.fibers, h.libc, h.repooled, h.stack_pool,
    h.clock, h.current, h.zombie⟩

theorem Pool.retuned {s : Reactor T γ σ κ} {l : List Nat} (h : Pool out good s l) (k : κ)
    (e : Errno) (c : UInt64) : Pool out good (retuned s k e c) l :=
  ⟨h.rep, h.own, h.sound, h.live, h.reserve, h.generation, h.fresh⟩

theorem quiet_does (hok : Ok out good S q) {k : κ} {e : Errno}
    {c : UInt64} (hr : S'.r = retuned S.r k e c) (halive : S'.alive = S.alive)
    (hpc : PcOk S'.pc S.r.current S.r.zombie)
    (hs : ∀ f status, source S a = some (f, status) → S.r.mem.state f ≠ .FB_PARKED)
    (hw : waked S a = none) (hc : pending S'.pc ≠ [] → S.r.current = none)
    (hclock : c = S.r.clock ∨ ∃ dt, a = .tick dt ∧ c = S.r.clock + dt)
    (hctl : Ctl K S S' a .quiet) : Does P K out good S a S' .quiet q q where
  ok := by
    refine ⟨?_, ?_, ?_⟩
    · rw [hr, halive]; exact hok.core.retuned k e c
    · rw [hr, halive]; exact hok.pool.retuned k e c
    · rw [hr]; exact hpc
  moved := by
    -- the clock is no part of the view
    refine ⟨halive, rfl, nofun, nofun, ?others, nofun, ?regs, ⟨?held, ?blocks, ?repooled, ?same⟩,
      ?stack_pool, nofun, nofun⟩
    all_goals rw [hr]
    case others => exact fun _ _ _ => rfl
    case regs => exact fun _ _ _ => Or.inl rfl
    case held => exact fun _ h => h
    case blocks => exact fun _ h => h
    case repooled => exact fun _ => Nat.le_refl _
    case same => exact fun _ _ => rfl
    case stack_pool => exact Or.inl rfl
  label := by
    refine ⟨nofun, ?reached, nofun, ?on_wake, nofun, nofun, nofun, nofun, ?clock, ?calm⟩
    case reached => exact fun f status he hp => absurd hp (hs f status he)
    case on_wake =>
      intro f he
      rw [hw] at he
      exact absurd he (by simp)
    case clock => rw [hr]; exact hclock
    case calm =>
      intro hp
      rw [hr]
      exact ⟨hc hp, Or.inl rfl⟩
  ctl := hctl

/-! ## §5. Wake-ups and commands. -/

theorem woke_does (H : LibcOk T L out good) (hok : Ok out good S q) {f : Nat} {status : EvStatus}
    (hp : S.r.mem.state f = .FB_PARKED) (hw : Woke S.r S'.r f status S.alive q)
    (hreg : S'.r.mem.reg_fd f = -1 ∨ (status = .READY ∧ S'.r.mem.reg_fd f = S.r.mem.reg_fd f))
    (halive : S'.alive = S.alive) (hpc : PcOk S'.pc S.r.current S.r.zombie)
    (hsrc : source S a = some (f, status))
    (hwk : ∀ g, waked S a = some g → g = f ∧ status = .READY)
    (hc : pending S'.pc ≠ [] → S.r.current = none) (hctl : Ctl K S S' a (.wake f status)) :
    Does P K out good S a S' (.wake f status) q (q ++ [f]) where
  ok := by
    refine ⟨?_, ?_, ?_⟩
    · rw [halive]; exact hw.core
    · rw [halive]; exact hok.pool.keep H (hw.kept L) (generation_of_view hw.view rfl)
    · rw [hw.current, hw.zombie]; exact hpc
  moved := by
    apply Moved.of_kept H hok (f := f) rfl (hw.kept L)
    · exact hw.view
    · exact nofun
    · exact nofun
    · exact halive
    · rfl
    · exact hp
    · exact hreg
    · exact fun g hg => Or.inl (hw.others g hg)
  label := by
    refine ⟨?_, ?_, nofun, ?_, nofun, nofun, nofun, nofun, Or.inl hw.clock, ?_⟩
    · rintro g st hm
      cases hm
      exact hsrc
    · intro g st he _
      rw [hsrc] at he
      cases he
      rfl
    · intro g he
      obtain ⟨rfl, rfl⟩ := hwk g he
      exact Or.inr rfl
    · intro hpd
      rw [hw.current]
      exact ⟨hc hpd, Or.inr (Or.inr ⟨f, status, rfl⟩)⟩
  ctl := hctl

theorem permit_does (H : LibcOk T L out good) (hok : Ok out good S q) {f : Nat}
    (hr : S'.r = permitted S.r f) (hpre : (Move.permit f).pre (view S.r f))
    (halive : S'.alive = S.alive) (hpc : PcOk S'.pc S.r.current S.r.zombie)
    (hs : ∀ g status, source S a = some (g, status) → S.r.mem.state g ≠ .FB_PARKED)
    (hwk : waked S a = some f) (hc : pending S'.pc ≠ [] → S.r.current = none)
    (hpend : ∀ e ∈ pending S'.pc, e ∈ pending S.pc) :
    Does P K out good S a S' (.permit f) q q where
  ok := by
    refine ⟨?_, ?_, ?_⟩
    · rw [hr, halive]; exact permitted_core hok.core f
    · rw [hr, halive]
      exact hok.pool.keep H ⟨rfl, .refl, rfl, rfl, rfl⟩ rfl
    · rw [hr]; exact hpc
  moved := by
    apply Moved.of_kept H hok (f := f) rfl
    · rw [hr]; exact ⟨rfl, .refl, rfl, rfl, rfl⟩
    · rw [hr]; exact permitted_view S.r f
    · exact nofun
    · exact nofun
    · exact halive
    · rfl
    · exact hpre
    · rw [hr]; rfl
    · rw [hr]; exact fun _ _ => Or.inl rfl
  label := by
    refine ⟨nofun, ?_, ?_, ?_, nofun, nofun, nofun, nofun, Or.inl (by rw [hr]; rfl), ?_⟩
    · exact fun g status he hp => absurd hp (hs g status he)
    · rintro g hm
      cases hm
      exact hwk
    · intro g he
      rw [hwk] at he
      cases he
      exact Or.inl rfl
    · intro hpd
      rw [hr]
      exact ⟨hc hpd, Or.inr (Or.inl ⟨f, rfl⟩)⟩
  ctl := .same (by rw [hr]; rfl) nofun nofun hpend

/-- What a command's step brings. -/
theorem waked_command {c : Cmd} (h : command S a = some c) :
    waked S a = if c.kind = .CMD_WAKE then addressee S.r c else none := by
  unfold waked
  rw [h]

theorem source_command {c : Cmd} (h : command S a = some c) :
    source S a = (addressee S.r c).bind fun f =>
      match c.kind with
      | .CMD_CANCEL => some (f, .CANCELLED)
      | .CMD_WAKE => if S.r.mem.park f = .PARK_ASYNC then some (f, .READY) else none := by
  have hdef : source S a = commanded S a := by
    have h' := h
    unfold command at h'
    unfold source
    split at h' <;> simp_all
  rw [hdef]
  unfold commanded
  obtain ⟨kind, target, gen⟩ := c
  cases kind <;> simp only [h]

/-- **A command**, by a fiber or from the ring. -/
theorem command_does (H : LibcOk T L out good) (hok : Ok out good S q) {c : Cmd}
    (hcmd : command S a = some c) (hr : S'.r = apply_cmd K S.r c) (halive : S'.alive = S.alive)
    (hpc : PcOk S'.pc S.r.current S.r.zombie)
    (hpend : ∀ e ∈ pending S'.pc, e ∈ pending S.pc)
    (hc : pending S'.pc ≠ [] → S.r.current = none) :
    ∃ m q', Does P K out good S a S' m q q' := by
  have hclose : ∀ fd, a ≠ .close fd := by
    rintro fd rfl
    unfold command at hcmd
    split at hcmd <;> simp_all
  have hsrc := source_command hcmd
  have hwk := waked_command hcmd
  have hquiet : S'.r = S.r → (∀ f status, source S a = some (f, status) →
      S.r.mem.state f ≠ .FB_PARKED) → waked S a = none →
      ∃ m q', Does P K out good S a S' m q q' := fun hsame hs hw =>
    ⟨.quiet, q, quiet_does hok (k := S.r.epoll) (e := S.r.errno) (c := S.r.clock) hsame halive hpc
      hs hw hc (Or.inl rfl) (.same (by rw [hsame]) nofun nofun hpend)⟩
  rcases apply_cmd_spec K S.r c with ⟨ha, heq⟩ | ⟨f, ha, hcase⟩
  · -- a stale handle
    apply hquiet (hr.trans heq)
    · rw [hsrc, ha]; exact nofun
    · rw [hwk, ha]; simp
  have hunpark : ∀ status, S.r.mem.state f = .FB_PARKED →
      apply_cmd K S.r c = unpark K S.r f status → source S a = some (f, status) →
      (∀ g, waked S a = some g → g = f ∧ status = .READY) →
      ∃ m q', Does P K out good S a S' m q q' := by
    intro status hp heq hs hw
    obtain ⟨hwoke, hreg, hdet⟩ := unpark_spec K hok.core hp status
    rw [← heq, ← hr] at hwoke hreg hdet
    exact ⟨_, _, woke_does H hok hp hwoke (Or.inl hreg) halive hpc hs hw hc
      (.gone hdet rfl hreg hclose hpend)⟩
  rw [ha, Option.bind_some] at hsrc
  rw [ha] at hwk
  rcases hcase with ⟨hk, hp, heq⟩ | ⟨hk, hp, heq⟩ | ⟨hk, hp, hpark, heq⟩ | ⟨hk, hp, heq⟩
  · -- a cancel of a parked fiber
    apply hunpark _ hp heq
    · rw [hsrc, hk]
    · rw [hwk, hk]; exact nofun
  · -- a cancel of a fiber that is not parked
    apply hquiet (hr.trans heq)
    · rw [hsrc, hk]
      rintro g status he
      cases he
      exact hp
    · rw [hwk, hk]; rfl
  · -- a wake of a fiber in an async wait
    apply hunpark _ hp heq
    · rw [hsrc, hk]
      exact if_pos hpark
    · rw [hwk, if_pos hk]
      rintro g he
      cases he
      exact ⟨rfl, rfl⟩
  · -- a wake of a fiber elsewhere
    obtain ⟨-, hstale⟩ := addressee_some.mp ha
    obtain ⟨-, hfree, hzombie⟩ := not_stale hstale
    refine ⟨_, _, permit_does H hok (hr.trans heq) ⟨hfree, hzombie, hp⟩ halive hpc ?_ ?_ hc hpend⟩
    · rw [hsrc, hk]
      intro g status he
      dsimp only at he
      split_ifs at he with hpark
      cases he
      exact fun hst => hp ⟨hst, hpark⟩
    · rw [hwk, if_pos hk]

/-! ## §6. The loop's statements. -/

/-- A statement of the loop that brings nothing and touches nothing. -/
theorem skip_does (hok : Ok out good S q) (hr : S'.r = S.r)
    (halive : S'.alive = S.alive) (hpc : PcOk S'.pc S.r.current S.r.zombie)
    (hs : source S a = none) (hw : waked S a = none)
    (hpend : ∀ e ∈ pending S'.pc, e ∈ pending S.pc)
    (hc : pending S'.pc ≠ [] → S.r.current = none) : ∃ m q', Does P K out good S a S' m q q' :=
  ⟨.quiet, q, quiet_does hok (k := S.r.epoll) (e := S.r.errno) (c := S.r.clock) hr halive hpc
    (by rw [hs]; exact nofun) hw hc (Or.inl rfl) (.same (by rw [hr]) nofun nofun hpend)⟩

/-- A dispatch, or the end of the round. -/
theorem round_does (H : LibcOk T L out good) (hok : Ok out good S q) {round_end : Option Nat}
    (hpc : S.pc = .round round_end) (h : turn L P K S = some S') :
    ∃ m q', Does P K out good S (.turn : Action δ) S' m q q' := by
  have hctl := hok.control
  rw [hpc] at hctl
  have hs : source S (.turn : Action δ) = none := by simp [source, commanded, command, hpc]
  have hw : waked S (.turn : Action δ) = none := by simp [waked, command, hpc]
  unfold turn at h
  rw [hpc] at h
  dsimp only at h
  cases q with
  | nil =>
      -- the queue is empty
      have hhead : S.r.ready_head = none := hok.core.roster.queue.head
      have hnone : dispatch S.r = none := by simp [dispatch, dequeue, hhead]
      rw [hnone] at h
      obtain rfl := Option.some.inj h
      exact skip_does hok rfl rfl hctl hs hw nofun nofun
  | cons f q =>
      obtain ⟨r', hd, hcore, hview, hreg, hk, hcur, hz, hep⟩ :=
        dispatch_spec (L := L) hok.core hctl.1
      rw [hd] at h
      obtain rfl := Option.some.inj h
      have hst : S.r.mem.state f = .FB_READY := (hok.core.roster.ready f).mp List.mem_cons_self
      refine ⟨.dispatch f, q, ⟨hcore, ?_, hcur, hz.trans hctl.2⟩, ?_, ?_, ?_⟩
      · exact hok.pool.keep H hk (generation_of_view hview rfl)
      · refine Moved.of_kept H hok rfl hk hview nofun nofun rfl rfl hst ?_ ?_
        · show r'.mem.reg_fd f = S.r.mem.reg_fd f
          rw [hreg]
        · intro g _
          exact Or.inl (congrFun hreg g)
      · apply Plain.labelled (m := .dispatch f) ⟨hs, hw, rfl, hk.clock⟩ nofun nofun _ nofun nofun nofun
        intro g hg
        cases hg
        rfl
      · exact .same hep nofun nofun nofun

/-- The completed fiber, if there is one, is recycled. -/
theorem back_does (H : LibcOk T L out good) (hok : Ok out good S q) {f : Nat}
    {round_end : Option Nat} (hpc : S.pc = .back f round_end) (h : turn L P K S = some S') :
    ∃ m q', Does P K out good S (.turn : Action δ) S' m q q' := by
  have hcur : S.r.current = none := by
    have := hok.control
    rwa [hpc] at this
  have hs : source S (.turn : Action δ) = none := by simp [source, commanded, command, hpc]
  have hw : waked S (.turn : Action δ) = none := by simp [waked, command, hpc]
  unfold turn at h
  rw [hpc] at h
  obtain rfl := Option.some.inj h
  -- both ways on are the loop's
  have hnext : ∀ {z : Option Nat}, z = none →
      PcOk (if some f = round_end then Pc.check else .round round_end) none z ∧
        pending (if some f = round_end then Pc.check else .round round_end) = [] := by
    rintro z rfl
    split_ifs <;> exact ⟨⟨rfl, rfl⟩, rfl⟩
  cases hz : S.r.zombie with
  | none =>
      apply skip_does hok
      · exact reap_none P K hz
      · rfl
      · rw [hcur]; exact (hnext hz).1
      · exact hs
      · exact hw
      · intro e he
        rw [(hnext hz).2] at he
        exact absurd he (by simp)
      · exact fun _ => hcur
  | some z =>
      have hr := reap_spec H P K hok.core hok.pool hz
      have hst : S.r.mem.state z = .FB_ZOMBIE := (hok.core.roster.dead z).mpr hz
      have hout : z ∉ S.alive.erase z := hok.core.roster.nodup.not_mem_erase
      refine ⟨.reap z, q, ⟨hr.core, hr.pool, ?_⟩, ?_, ?_, ?_⟩
      · show PcOk _ (reap L P K S.r).current (reap L P K S.r).zombie
        rw [hr.current, hcur]
        exact (hnext hr.zombie).1
      · refine ⟨rfl, rfl, ?pre, ?self, ?others, ?reg, ?regs, ⟨?held, hr.blocks, ?repooled, ?same⟩,
          trivial, ?reaped, nofun⟩
        case pre =>
          intro g hg
          cases hg
          exact hst
        case self =>
          intro g hg
          cases hg
          rw [hr.view, Function.update_self]
          rfl
        case others =>
          intro g _ hg
          rw [hr.view, Function.update_of_ne (fun e => hg (by rw [e]; rfl))]
        case reg =>
          intro g hg
          cases hg
          show (reap L P K S.r).mem.reg_fd z = -1
          rw [hr.reg, Function.update_self]
        case regs =>
          intro g _ hg
          show (reap L P K S.r).mem.reg_fd g = _ ∨ _
          rw [hr.reg, Function.update_of_ne (fun e => hg (by rw [e]; rfl))]
          exact Or.inl rfl
        case held =>
          show ∀ r ∈ out S.r.libc, r ∈ out (reap L P K S.r).libc
          rw [hr.libc]
          exact fun r hr => hr
        case repooled =>
          intro p
          show S.r.repooled p ≤ (reap L P K S.r).repooled p
          rw [hr.repooled]
          by_cases hpz : p = z
          · subst hpz; simp
          · rw [Function.update_of_ne hpz]
        case same =>
          intro g hg
          have hgz : g ≠ z := by
            rintro rfl
            exact hout hg
          show (reap L P K S.r).repooled g = _
          rw [hr.repooled, Function.update_of_ne hgz]
        case reaped =>
          intro g hg
          cases hg
          refine ⟨?_, hr.stack_pool⟩
          show (reap L P K S.r).repooled z = _
          rw [hr.repooled, Function.update_self]
      · exact Plain.labelled (m := .reap z) ⟨hs, hw, (hnext rfl).2, hr.clock⟩ nofun nofun nofun nofun
          nofun nofun
      · apply Ctl.gone hr.kernel rfl
        · show (reap L P K S.r).mem.reg_fd z = -1
          rw [hr.reg, Function.update_self]
        · exact nofun
        · intro e he
          rw [show pending _ = [] from (hnext rfl).2] at he
          exact absurd he (by simp)

/-- The loop looks at the next event of the batch. -/
theorem events_does (H : LibcOk T L out good) (hok : Ok out good S q) {e : Event}
    {evs : List Event} (hpc : S.pc = .events (e :: evs)) (h : turn L P K S = some S') :
    ∃ m q', Does P K out good S (.turn : Action δ) S' m q q' := by
  have hctl := hok.control
  rw [hpc] at hctl
  have hs : source S (.turn : Action δ) = e.data.map fun w => (w, .READY) := by
    simp [source, hpc]
  have hw : waked S (.turn : Action δ) = none := by simp [waked, command, hpc]
  have hsub : ∀ x ∈ evs, x ∈ pending S.pc := by
    rw [hpc]
    exact fun x hx => List.mem_cons_of_mem _ hx
  unfold turn at h
  rw [hpc] at h
  dsimp only at h
  cases hd : e.data with
  | none =>
      -- the eventfd's event
      rw [hd] at h hs
      obtain rfl := Option.some.inj h
      exact skip_does hok rfl rfl hctl hs hw hsub fun _ => hctl.1
  | some w =>
      rw [hd] at h hs
      obtain rfl := Option.some.inj h
      rcases ready_event_spec hok.core w with ⟨hst, heq⟩ | ⟨hst, hwoke, hreg, hep⟩
      · refine ⟨.quiet, q, quiet_does hok (k := S.r.epoll) (e := S.r.errno) (c := S.r.clock) heq
          rfl hctl ?_ hw (fun _ => hctl.1) (Or.inl rfl) (.same (by rw [heq]) nofun nofun hsub)⟩
        rw [hs]
        rintro f status he
        cases he
        exact hst
      · refine ⟨_, _, woke_does H hok hst hwoke (Or.inr ⟨rfl, by rw [hreg]⟩) rfl hctl hs ?_
          (fun _ => hctl.1) (.event hep hpc rfl hd)⟩
        rw [hw]
        exact nofun

/-- A deadline has passed, or none has. -/
theorem timers_does (H : LibcOk T L out good) (hok : Ok out good S q) {now : UInt64}
    (hpc : S.pc = .timers now) (h : turn L P K S = some S') :
    ∃ m q', Does P K out good S (.turn : Action δ) S' m q q' := by
  have hctl := hok.control
  rw [hpc] at hctl
  have hw : waked S (.turn : Action δ) = none := by simp [waked, command, hpc]
  unfold turn at h
  rw [hpc] at h
  dsimp only at h
  by_cases hexp : expired S.r now = true
  · have hs : source S (.turn : Action δ) = some (S.r.heap 0, .TIMEOUT) := by
      simp [source, hpc, hexp]
    rw [if_pos hexp] at h
    obtain rfl := Option.some.inj h
    have hlen : S.r.heap_len > 0 := by
      simp only [expired, Bool.and_eq_true, decide_eq_true_eq] at hexp
      exact hexp.1
    obtain ⟨hst, hwoke, hreg, hdet, -⟩ := fire_timer_spec K hok.core hlen
    refine ⟨_, _, woke_does H hok hst hwoke (Or.inl hreg) rfl hctl hs ?_
      (fun _ => hctl.1) (.gone hdet rfl hreg nofun nofun)⟩
    rw [hw]
    exact nofun
  · have hs : source S (.turn : Action δ) = none := by simp [source, hpc, hexp]
    rw [if_neg hexp] at h
    obtain rfl := Option.some.inj h
    exact skip_does hok rfl rfl hctl hs hw nofun nofun

theorem turn_does (H : LibcOk T L out good) (hok : Ok out good S q)
    (h : turn L P K S = some S') : ∃ m q', Does P K out good S (.turn : Action δ) S' m q q' := by
  have hctl := hok.control
  cases hpc : S.pc with
  | host => simp [turn, hpc] at h
  | fiber f e => simp [turn, hpc] at h
  | poll t => simp [turn, hpc] at h
  | round e => exact round_does H hok hpc h
  | back f e => exact back_does H hok hpc h
  | timers now => exact timers_does H hok hpc h
  | head =>
      -- a round begins, or the run returns
      rw [hpc] at hctl
      have hs : source S (.turn : Action δ) = none := by simp [source, commanded, command, hpc]
      have hw : waked S (.turn : Action δ) = none := by simp [waked, command, hpc]
      simp only [turn, hpc] at h
      split_ifs at h <;> obtain rfl := Option.some.inj h
      · exact skip_does hok rfl rfl hctl hs hw nofun nofun
      · exact skip_does hok rfl rfl hctl hs hw nofun nofun
  | check =>
      rw [hpc] at hctl
      have hs : source S (.turn : Action δ) = none := by simp [source, commanded, command, hpc]
      have hw : waked S (.turn : Action δ) = none := by simp [waked, command, hpc]
      simp only [turn, hpc] at h
      split_ifs at h <;> obtain rfl := Option.some.inj h
      all_goals exact skip_does hok rfl rfl hctl hs hw nofun nofun
  | events evs =>
      cases evs with
      | cons e evs => exact events_does H hok hpc h
      | nil =>
          -- the batch is handled
          rw [hpc] at hctl
          have hs : source S (.turn : Action δ) = none := by
            simp [source, commanded, command, hpc]
          have hw : waked S (.turn : Action δ) = none := by simp [waked, command, hpc]
          simp only [turn, hpc] at h
          obtain rfl := Option.some.inj h
          exact skip_does hok rfl rfl hctl hs hw nofun nofun
  | drain evs =>
      rw [hpc] at hctl
      cases hcmds : S.cmds with
      | nil => simp [turn, hpc, hcmds] at h
      | cons c cmds =>
          -- one command of the ring
          simp only [turn, hpc, hcmds] at h
          obtain rfl := Option.some.inj h
          apply command_does H hok (c := c)
          · simp [command, hpc, hcmds]
          · rfl
          · rfl
          · exact hctl
          · exact fun x hx => hpc ▸ hx
          · exact fun _ => hctl.1

/-! ## §7. Spawns and the calls of a fiber. -/

/-- A spawn, by the host or by a fiber. -/
theorem spawn_does (H : LibcOk T L out good) (hok : Ok out good S q)
    (hS : S' = spawned S (spawn_locked L P S.r)) (hpc : pending S.pc = [])
    (hs : source S a = none) (hw : waked S a = none) : ∃ m q', Does P K out good S a S' m q q' := by
  rcases spawn_locked_spec H P hok.core hok.pool with ⟨r', heq, hr⟩ | ⟨f, r', heq, hr⟩
  · -- refused: at most a block was repooled, and no live fiber is on it
    rw [heq] at hS
    subst hS
    refine ⟨.quiet, q, ⟨hr.core, hr.pool, ?_⟩, ?_, ?_, ?_⟩
    · show PcOk S.pc r'.current r'.zombie
      rw [hr.around.current, hr.around.zombie]
      exact hok.control
    · refine ⟨rfl, rfl, nofun, nofun, fun g hg _ => hr.around.view g hg, nofun,
        fun g hg _ => Or.inl (hr.around.regs g hg), ⟨hr.around.held, hr.around.blocks, ?_, ?_⟩,
        hr.stack_pool, nofun, nofun⟩
      · intro p
        show S.r.repooled p ≤ r'.repooled p
        rcases hr.repooled with he | ⟨f, -, he⟩
        · rw [he]
        · rw [he]
          by_cases hpf : p = f
          · subst hpf; simp
          · rw [Function.update_of_ne hpf]
      · intro g hg
        show r'.repooled g = S.r.repooled g
        rcases hr.repooled with he | ⟨f, hf, he⟩
        · rw [he]
        · have hgf : g ≠ f := by
            rintro rfl
            exact hf hg
          rw [he, Function.update_of_ne hgf]
    · exact Plain.labelled ⟨hs, hw, hpc, hr.around.clock⟩ nofun nofun nofun nofun nofun nofun
    · exact .same hr.around.epoll nofun nofun fun e he => he
  · -- made, on a struct that was free
    rw [heq] at hS
    subst hS
    have hst : S.r.mem.state f = .FB_FREE := by
      by_contra hne
      exact hr.fresh ((hok.core.roster.live f).mpr hne)
    refine ⟨.spawn f (UInt64.ofNat (S.r.repooled f))
      (P.cfiber_growable_stack_alloc S.r.stack_pool).1, q ++ [f], ⟨hr.core, hr.pool, ?_⟩, ?_, ?_,
      ?_⟩
    · show PcOk S.pc r'.current r'.zombie
      rw [hr.around.current, hr.around.zombie]
      exact hok.control
    · refine ⟨rfl, rfl, ?pre, ?self, ?others, ?reg, ?regs, ⟨hr.around.held, hr.around.blocks,
        ?repooled, ?same⟩, ⟨?stack_pool, hr.stack⟩,
        nofun, ?generation⟩
      case pre =>
        intro g hg
        cases hg
        exact hst
      case self =>
        intro g hg
        cases hg
        exact hr.new
      case others => exact fun g hg _ => hr.around.view g hg
      case reg =>
        intro g hg
        cases hg
        exact hr.reg
      case regs => exact fun g hg _ => Or.inl (hr.around.regs g hg)
      case repooled =>
        intro p
        show S.r.repooled p ≤ r'.repooled p
        rw [hr.repooled]
      case same =>
        intro g _
        show r'.repooled g = S.r.repooled g
        rw [hr.repooled]
      case stack_pool =>
        show _ = (_, r'.stack_pool)
        rw [hr.stack_pool]
      case generation =>
        intro g gen stack hg
        cases hg
        rfl
    · refine Plain.labelled ⟨hs, hw, hpc, hr.around.clock⟩ nofun nofun nofun nofun ?_ nofun
      intro g gen stack hg
      cases hg
      rfl
    · exact .same hr.around.epoll nofun nofun fun e he => he

/-- A call of the running fiber that returned `ERROR`. -/
theorem fails_does (H : LibcOk T L out good) (hok : Ok out good S q) {f : Nat}
    {round_end : Option Nat} (hpc : S.pc = .fiber f round_end)
    (hf : Fails L S.r S'.r f S.alive q) (hreg : S'.r.mem.reg_fd f = S.r.mem.reg_fd f ∨
      S'.r.mem.reg_fd f = -1) (halive : S'.alive = S.alive) (hpc' : S'.pc = S.pc)
    (hs : source S a = none) (hw : waked S a = none) (hctl : Ctl K S S' a .quiet) :
    ∃ m q', Does P K out good S a S' m q q' := by
  refine ⟨.quiet, q, ⟨?_, ?_, ?_⟩, ?_, ?_, hctl⟩
  · rw [halive]; exact hf.core
  · rw [halive]
    exact hok.pool.keep H hf.kept (by
      funext g
      exact congrArg FiberView.generation (congrFun hf.view g))
  · rw [hf.current, hf.zombie, hpc']; exact hok.control
  · refine Moved.quiet H hok hf.kept hf.view halive ?_
    intro g
    by_cases hgf : g = f
    · subst hgf; exact hreg
    · exact hf.regs g hgf
  · exact Plain.labelled ⟨hs, hw, by rw [hpc', hpc]; rfl, hf.kept.clock⟩ nofun nofun nofun nofun nofun
      nofun

/-- A call of the running fiber that parked it. -/
theorem parks_does (H : LibcOk T L out good) (hok : Ok out good S q) {f : Nat}
    {round_end : Option Nat} (hpc : S.pc = .fiber f round_end) {kind : ParkKind} {fd : Int}
    {deadline : Option UInt64} (hp : Parks L S.r S'.r f kind fd deadline S.alive q)
    (hreg : (Move.park f kind fd deadline).reg (S.r.mem.reg_fd f) (S'.r.mem.reg_fd f))
    (halive : S'.alive = S.alive) (hpc' : S'.pc = .back f round_end)
    (hs : source S a = none) (hw : waked S a = none)
    (hask : parking S.r a = some (kind, fd, deadline)) (hret : S'.ret = none)
    (hctl : Ctl K S S' a (.park f kind fd deadline)) :
    ∃ m q', Does P K out good S a S' m q q' := by
  have hcur : S.r.current = some f := by
    have := hok.control
    rw [hpc] at this
    exact this.1
  obtain ⟨hst, -, -⟩ := hok.core.running hcur
  refine ⟨.park f kind fd deadline, q, ⟨?_, ?_, ?_⟩, ?_, ?_, hctl⟩
  · rw [halive]; exact hp.core
  · rw [halive]
    exact hok.pool.keep H hp.kept (generation_of_view hp.view rfl)
  · rw [hp.current, hpc']; rfl
  · exact Moved.of_kept H hok rfl hp.kept hp.view nofun nofun halive rfl hst hreg hp.regs
  · refine Plain.labelled ⟨hs, hw, by rw [hpc']; rfl,
      hp.kept.clock⟩ nofun nofun nofun nofun nofun ?_
    intro g kind' fd' deadline' he
    cases he
    exact ⟨hask, hret⟩

section
variable {f : Nat} {round_end : Option Nat}

/-- The fiber in control is the current one. -/
theorem Ok.current (hok : Ok out good S q) (hpc : S.pc = .fiber f round_end) :
    S.r.current = some f ∧ S.r.zombie = none := by
  have := hok.control
  rwa [hpc] at this

theorem wait_does (H : LibcOk T L out good) (hok : Ok out good S q)
    (hpc : S.pc = .fiber f round_end) (fd : Int) (dir : UInt32) (t : Int64)
    (hS : S' = called S f round_end (cfiber_ev_wait L K S.r fd dir t)) :
    ∃ m q', Does P K out good S (.wait fd dir t : Action δ) S' m q q' := by
  obtain ⟨hcur, -⟩ := hok.current hpc
  have hs : source S (.wait fd dir t : Action δ) = none := by
    simp [source, commanded, command, hpc]
  have hw : waked S (.wait fd dir t : Action δ) = none := by simp [waked, command, hpc]
  have hrest : pending S.pc = [] := by rw [hpc]; rfl
  rcases cfiber_ev_wait_spec (L := L) K hok.core hcur fd dir t with
    ⟨r', heq, hfail, hreg, hk⟩ | ⟨r', heq, hpark, hfd, hreg, hk⟩
  · rw [heq] at hS
    subst hS
    refine fails_does H hok hpc hfail hreg rfl rfl hs hw ?_
    rcases hk with hk | ⟨k, harm, hdel⟩
    · exact .refused hk hrest
    · exact .dropped harm hdel hrest
  · rw [heq] at hS
    subst hS
    refine parks_does H hok hpc hpark ⟨hfd, hreg⟩ rfl rfl hs hw rfl rfl ?_
    exact .armed hfd hk rfl

theorem sleep_does (H : LibcOk T L out good) (hok : Ok out good S q)
    (hpc : S.pc = .fiber f round_end) (ns : UInt64)
    (hS : S' = called S f round_end (cfiber_ev_sleep L S.r ns)) :
    ∃ m q', Does P K out good S (.sleep ns : Action δ) S' m q q' := by
  obtain ⟨hcur, -⟩ := hok.current hpc
  have hs : source S (.sleep ns : Action δ) = none := by simp [source, commanded, command, hpc]
  have hw : waked S (.sleep ns : Action δ) = none := by simp [waked, command, hpc]
  rcases cfiber_ev_sleep_spec (L := L) hok.core hcur ns with
    ⟨r', heq, hfail, hk, hreg⟩ | ⟨r', heq, hpark, hk, hreg⟩
  · rw [heq] at hS
    subst hS
    refine fails_does H hok hpc hfail (Or.inl (congrFun hreg f)) rfl rfl hs hw ?_
    exact .same hk nofun nofun fun e he => he
  · rw [heq] at hS
    subst hS
    refine parks_does H hok hpc hpark (congrFun hreg f) rfl rfl hs hw rfl rfl ?_
    exact .same hk nofun nofun nofun

theorem wait_async_does (H : LibcOk T L out good) (hok : Ok out good S q)
    (hpc : S.pc = .fiber f round_end) (t : Int64)
    (hS : S' = called S f round_end (cfiber_ev_wait_async L S.r t)) :
    ∃ m q', Does P K out good S (.wait_async t : Action δ) S' m q q' := by
  obtain ⟨hcur, hz⟩ := hok.current hpc
  have hs : source S (.wait_async t : Action δ) = none := by
    simp [source, commanded, command, hpc]
  have hw : waked S (.wait_async t : Action δ) = none := by simp [waked, command, hpc]
  have hrest : pending S.pc = [] := by rw [hpc]; rfl
  rcases cfiber_ev_wait_async_spec (L := L) hok.core hcur t with
    ⟨hpend, heq⟩ | ⟨-, ⟨r', heq, hfail, hk, hreg⟩ | ⟨r', heq, hpark, hk, hreg⟩⟩
  · -- a permit is consumed
    rw [heq] at hS
    subst hS
    have hst := (hok.core.running hcur).1
    refine ⟨.consume f, q, ⟨consumed_core hok.core, ?_, hok.control⟩, ?_, ?_, ?_⟩
    · exact hok.pool.keep H ⟨rfl, .refl, rfl, rfl, rfl⟩ rfl
    · exact Moved.of_kept H hok rfl ⟨rfl, .refl, rfl, rfl, rfl⟩ (consumed_view S.r f) nofun nofun rfl
        rfl ⟨hst, hpend⟩ rfl fun _ _ => Or.inl rfl
    · refine Plain.labelled ⟨hs, hw, hrest, rfl⟩ nofun nofun nofun ?_ nofun nofun
      intro g he
      cases he
      exact ⟨⟨t, rfl⟩, rfl, rfl⟩
    · exact .same rfl nofun nofun fun e he => he
  · rw [heq] at hS
    subst hS
    refine fails_does H hok hpc hfail (Or.inl (congrFun hreg f)) rfl rfl hs hw ?_
    exact .same hk nofun nofun fun e he => he
  · rw [heq] at hS
    subst hS
    refine parks_does H hok hpc hpark (congrFun hreg f) rfl rfl hs hw rfl rfl ?_
    exact .same hk nofun nofun nofun

theorem yield_does (H : LibcOk T L out good) (hok : Ok out good S q)
    (hpc : S.pc = .fiber f round_end)
    (hS : S' = { S with r := cfiber_ev_yield S.r, ret := none, pc := .back f round_end }) :
    ∃ m q', Does P K out good S (.yield : Action δ) S' m q q' := by
  subst hS
  obtain ⟨hcur, -⟩ := hok.current hpc
  have hs : source S (.yield : Action δ) = none := by simp [source, commanded, command, hpc]
  have hw : waked S (.yield : Action δ) = none := by simp [waked, command, hpc]
  obtain ⟨hcore, hview, hreg, hk, hcur', -, hep⟩ := cfiber_ev_yield_spec (L := L) hok.core hcur
  have hst := (hok.core.running hcur).1
  refine ⟨.yield f, q ++ [f], ⟨hcore, ?_, hcur'⟩, ?_, ?_, ?_⟩
  · exact hok.pool.keep H hk (generation_of_view hview rfl)
  · exact Moved.of_kept H hok rfl hk hview nofun nofun rfl rfl hst (congrFun hreg f)
      fun g _ => Or.inl (congrFun hreg g)
  · exact Plain.labelled ⟨hs, hw, rfl, hk.clock⟩ nofun nofun nofun nofun nofun nofun
  · exact .same hep nofun nofun nofun

theorem finish_does (H : LibcOk T L out good) (hok : Ok out good S q)
    (hpc : S.pc = .fiber f round_end)
    (hS : S' = { S with r := reactor_return_hook S.r, ret := none, pc := .back f round_end }) :
    ∃ m q', Does P K out good S (.finish : Action δ) S' m q q' := by
  subst hS
  obtain ⟨hcur, hz⟩ := hok.current hpc
  have hs : source S (.finish : Action δ) = none := by simp [source, commanded, command, hpc]
  have hw : waked S (.finish : Action δ) = none := by simp [waked, command, hpc]
  obtain ⟨hcore, hview, hreg, hk, hcur', -, hep⟩ :=
    reactor_return_hook_spec (L := L) hok.core hcur hz
  have hst := (hok.core.running hcur).1
  refine ⟨.finish f, q, ⟨hcore, ?_, hcur'⟩, ?_, ?_, ?_⟩
  · exact hok.pool.keep H hk (generation_of_view hview rfl)
  · exact Moved.of_kept H hok rfl hk hview nofun nofun rfl rfl hst (congrFun hreg f)
      fun g _ => Or.inl (congrFun hreg g)
  · exact Plain.labelled ⟨hs, hw, rfl, hk.clock⟩ nofun nofun nofun nofun nofun nofun
  · exact .same hep nofun nofun nofun

/-- What `close(2)` leaves behind of the reactor. -/
theorem close_eq (K : Kernel κ δ) (s : Reactor T γ σ κ) (fd : Int) :
    ∃ e, (close K s fd).2 = retuned s (K.close fd s.epoll).2 e s.clock := by
  unfold close
  rcases hk : K.close fd s.epoll with ⟨_ | e, k⟩
  · exact ⟨s.errno, rfl⟩
  · exact ⟨e, rfl⟩

theorem close_does (H : LibcOk T L out good) (hok : Ok out good S q)
    (hpc : S.pc = .fiber f round_end) (fd : Int)
    (hS : S' = { S with
      r := (cfiber_ev_close K S.r fd).2
      ret := some (.closed (cfiber_ev_close K S.r fd).1) }) :
    ∃ m q', Does P K out good S (.close fd : Action δ) S' m q q' := by
  subst hS
  have hw : waked S (.close fd : Action δ) = none := by simp [waked, command, hpc]
  have hs : source S (.close fd : Action δ) =
      ((fd_owner_get S.r fd).filter fun f => S.r.mem.wait_fd f == fd).map
        fun f => (f, .CANCELLED) := by simp [source, hpc]
  have hrest : pending S.pc = [] := by rw [hpc]; rfl
  obtain ⟨e, hclose⟩ := close_eq K (release_holder K S.r fd) fd
  unfold cfiber_ev_close
  rw [hclose]
  rcases release_holder_spec K hok.core fd with
    ⟨hnone, heq⟩ | ⟨g, hget, hpk, heq⟩ | ⟨g, hget, hnot, heq, hlet⟩
  · -- nobody holds it
    rw [heq]
    refine ⟨.quiet, q, quiet_does hok rfl rfl hok.control ?_ hw (fun h => absurd hrest h)
      (Or.inl rfl) (.close hnone rfl hrest)⟩
    rw [hs, hnone]
    exact nofun
  · -- its holder is parked on it
    rw [heq]
    obtain ⟨hwoke, hreg, hdet⟩ := unpark_spec K hok.core hpk.1 .CANCELLED
    have hclosed := hwoke.retuned (K.close fd (unpark K S.r g .CANCELLED).epoll).2 e
    refine ⟨_, _, woke_does H hok hpk.1 hclosed (Or.inl hreg) rfl hok.control ?_ ?_
      (fun h => absurd hrest h) (.close_cancel hget hpk hdet rfl hrest)⟩
    · rw [hs, hget]
      simp [hpk.2]
    · rw [hw]
      exact nofun
  · -- its holder is idle
    have hk := hlet.kept L
    have hgone : Kept L S.r (retuned (release_holder K S.r fd)
        (K.close fd (release_holder K S.r fd).epoll).2 e (release_holder K S.r fd).clock) :=
      ⟨hk.fibers, hk.libc, hk.repooled, hk.stack_pool, hk.clock⟩
    refine ⟨.quiet, q, ⟨hlet.core.retuned _ _ _, ?_, ?_⟩, ?_, ?_, ?_⟩
    · exact hok.pool.keep H hgone (by
        funext x
        exact congrArg FiberView.generation (congrFun hlet.view x))
    · show PcOk S.pc (release_holder K S.r fd).current (release_holder K S.r fd).zombie
      rw [hlet.current, hlet.zombie]
      exact hok.control
    · refine Moved.quiet H hok hgone hlet.view rfl ?_
      intro x
      show (release_holder K S.r fd).mem.reg_fd x = _ ∨ (release_holder K S.r fd).mem.reg_fd x = _
      rw [hlet.reg]
      by_cases hx : x = g
      · subst hx; simp
      · exact Or.inl (Function.update_of_ne hx _ _)
    · refine ⟨nofun, ?_, nofun, ?_, nofun, nofun, nofun, nofun, Or.inl hk.clock,
        fun h => absurd hrest h⟩
      · intro x status he hst
        rw [hs, hget] at he
        simp only [Option.filter_some, beq_iff_eq] at he
        split_ifs at he with hwf
        · cases he
          exact absurd ⟨hst, hwf⟩ hnot
        · exact absurd he (by simp)
      · rw [hw]; exact nofun
    · exact .close_idle hget hnot hlet.kernel rfl hrest

/-- **What the running fiber does.** -/
theorem act_does (H : LibcOk T L out good) (hok : Ok out good S q)
    (hpc : S.pc = .fiber f round_end) (h : act L P K S f round_end a = some S') :
    ∃ m q', Does P K out good S a S' m q q' := by
  have hctl := hok.control
  rw [hpc] at hctl
  have hrest : pending S.pc = [] := by rw [hpc]; rfl
  -- a call that leaves everything but `errno` as it was
  have hskip : ∀ e : Errno, S'.r = retuned S.r S.r.epoll e S.r.clock → S'.alive = S.alive →
      S'.pc = S.pc → source S a = none → waked S a = none →
      ∃ m q', Does P K out good S a S' m q q' := fun e hr hal hpc' hs hw =>
    ⟨.quiet, q, quiet_does hok hr hal (by rw [hpc']; exact hok.control) (by rw [hs]; exact nofun) hw
      (fun hp => absurd (hpc' ▸ hrest) hp) (Or.inl rfl)
      (.same (by rw [hr]; rfl) nofun nofun (by rw [hpc']; exact fun _ h => h))⟩
  cases a with
  | spawn =>
      exact spawn_does H hok (Option.some.inj h).symm hrest
        (by simp [source, commanded, command, hpc]) (by simp [waked, command, hpc])
  | run =>
      obtain rfl := Option.some.inj h
      exact hskip .EBUSY rfl rfl rfl (by simp [source, commanded, command, hpc])
        (by simp [waked, command, hpc])
  | wait fd dir t => exact wait_does H hok hpc fd dir t (Option.some.inj h).symm
  | sleep ns => exact sleep_does H hok hpc ns (Option.some.inj h).symm
  | wait_async t => exact wait_async_does H hok hpc t (Option.some.inj h).symm
  | yield => exact yield_does H hok hpc (Option.some.inj h).symm
  | close fd => exact close_does H hok hpc fd (Option.some.inj h).symm
  | wake hd =>
      obtain rfl := Option.some.inj h
      exact command_does H hok (c := ⟨.CMD_WAKE, hd.f, hd.gen⟩) (by simp [command, hpc]) rfl rfl
        hok.control (fun _ h => h) fun hp => absurd hrest hp
  | cancel hd =>
      obtain rfl := Option.some.inj h
      exact command_does H hok (c := ⟨.CMD_CANCEL, hd.f, hd.gen⟩) (by simp [command, hpc]) rfl rfl
        hok.control (fun _ h => h) fun hp => absurd hrest hp
  | self =>
      obtain rfl := Option.some.inj h
      exact hskip S.r.errno rfl rfl rfl (by simp [source, commanded, command, hpc])
        (by simp [waked, command, hpc])
  | finish => exact finish_does H hok hpc (Option.some.inj h).symm
  -- the rest are no calls
  | turn => simp [act] at h
  | poll d => simp [act] at h
  | drained => simp [act] at h
  | post c => simp [act] at h
  | other d => simp [act] at h
  | tick dt => simp [act] at h

end

/-! ## §8. Steps, and runs. -/

/-- The loop has control while it handles a batch. -/
theorem Ok.calm (hok : Ok out good S q) (h : pending S.pc ≠ []) : S.r.current = none := by
  have hctl := hok.control
  cases hpc : S.pc with
  | events evs => rw [hpc] at hctl; exact hctl.1
  | drain evs => rw [hpc] at hctl; exact hctl.1
  | _ => rw [hpc] at h; exact absurd rfl h

/-- An action that is neither the loop's nor a call brings nothing. -/
theorem no_source (h : a ≠ .turn ∧ (∀ hd, a ≠ .wake hd) ∧ (∀ hd, a ≠ .cancel hd) ∧
    ∀ fd, a ≠ .close fd) : source S a = none ∧ waked S a = none := by
  obtain ⟨h, hw, hc, hcl⟩ := h
  have hcmd : command S a = none := by
    unfold command
    split
    · exact absurd rfl (hw _)
    · exact absurd rfl (hc _)
    · exact absurd rfl h
    · rfl
  constructor
  · unfold source
    split
    · exact absurd rfl h
    · exact absurd rfl h
    · exact absurd rfl (hcl _)
    · unfold commanded; rw [hcmd]
  · unfold waked; rw [hcmd]

/-- `epoll_wait` returned. -/
theorem poll_does (hok : Ok out good S q) {t : Int} (hpc : S.pc = .poll t) {d : δ}
    (h : (K.epoll_wait d t S.r.epoll).bind (polled S) = some S') :
    ∃ m q', Does P K out good S (.poll d : Action δ) S' m q q' := by
  have hctl := hok.control
  rw [hpc] at hctl
  obtain ⟨hs, hw⟩ := no_source (S := S) (a := (.poll d : Action δ)) (by simp)
  have hs' : ∀ f status, source S (.poll d : Action δ) = some (f, status) →
      S.r.mem.state f ≠ .FB_PARKED := by rw [hs]; exact nofun
  cases hk : K.epoll_wait d t S.r.epoll with
  | none => simp [hk] at h
  | some x =>
      obtain ⟨res, k⟩ := x
      rw [hk, Option.bind_some] at h
      cases res with
      | ok evs =>
          unfold polled at h
          dsimp only at h
          split_ifs at h
          obtain rfl := Option.some.inj h
          exact ⟨.quiet, q, quiet_does hok (k := k) (e := S.r.errno) (c := S.r.clock) rfl rfl hctl
            hs' hw (fun _ => hctl.1) (Or.inl rfl) (.poll hk fun e he => ⟨evs, rfl, he⟩)⟩
      | error e =>
          unfold polled at h
          dsimp only at h
          split_ifs at h <;> obtain rfl := Option.some.inj h
          all_goals
            exact ⟨.quiet, q, quiet_does hok (k := k) (e := e) (c := S.r.clock) rfl rfl hctl hs' hw
              (fun _ => hctl.1) (Or.inl rfl) (.poll hk nofun)⟩

/-- **What a step does.** -/
theorem step_does (H : LibcOk T L out good) (hok : Ok out good S q)
    (h : step L P K S a = some S') : ∃ m q', Does P K out good S a S' m q q' := by
  -- a call is only possible in a fiber, or outside the loop
  have hcall : ∀ {x : Option (Sys T γ σ κ)}, (∀ f e, S.pc = .fiber f e → x = act L P K S f e a) →
      (S.pc = .host → x = some S' → ∃ m q', Does P K out good S a S' m q q') →
      ((∀ f e, S.pc ≠ .fiber f e) → S.pc ≠ .host → x = none) → x = some S' →
      ∃ m q', Does P K out good S a S' m q q' := by
    intro x hfiber hhost hrest hx
    cases hpc : S.pc with
    | fiber f e => exact act_does H hok hpc ((hfiber f e hpc).symm.trans hx)
    | host => exact hhost hpc hx
    | _ =>
        rw [hrest (by simp [hpc]) (by simp [hpc])] at hx
        exact absurd hx (by simp)
  have hhere : PcOk S.pc S.r.current S.r.zombie := hok.control
  cases a with
  | turn => exact turn_does H hok h
  | post c =>
      obtain rfl := Option.some.inj h
      obtain ⟨hs, hw⟩ := no_source (S := S) (a := (.post c : Action δ)) (by simp)
      exact skip_does hok rfl rfl hhere hs hw (fun _ he => he) hok.calm
  | other d =>
      obtain ⟨k, hk, rfl⟩ := Option.map_eq_some_iff.mp h
      obtain ⟨hs, hw⟩ := no_source (S := S) (a := (.other d : Action δ)) (by simp)
      exact ⟨.quiet, q, quiet_does hok (k := k) (e := S.r.errno) (c := S.r.clock) rfl rfl hhere
        (by rw [hs]; simp) hw hok.calm (Or.inl rfl) (.other hk rfl)⟩
  | tick dt =>
      obtain rfl := Option.some.inj h
      obtain ⟨hs, hw⟩ := no_source (S := S) (a := (.tick dt : Action δ)) (by simp)
      exact ⟨.quiet, q, quiet_does hok (k := S.r.epoll) (e := S.r.errno) (c := S.r.clock + dt) rfl rfl
        hhere (by rw [hs]; simp) hw hok.calm (Or.inr ⟨dt, rfl, rfl⟩)
        (.same rfl (by simp) (by simp) fun _ he => he)⟩
  | drained =>
      obtain ⟨hs, hw⟩ := no_source (S := S) (a := (.drained : Action δ)) (by simp)
      unfold step at h
      cases hpc : S.pc with
      | drain evs =>
          rw [hpc] at h hhere
          obtain rfl := Option.some.inj h
          exact skip_does hok rfl rfl hhere hs hw (by rw [hpc]; exact fun _ he => he) fun _ => hhere.1
      | _ => simp [hpc] at h
  | poll d =>
      unfold step at h
      cases hpc : S.pc with
      | poll t =>
          rw [hpc] at h
          exact poll_does hok hpc h
      | _ => simp [hpc] at h
  | spawn =>
      refine hcall ?_ ?_ ?_ h
      · intro f e hpc; simp [step, hpc]
      · intro hpc hx
        simp only [step, hpc] at hx
        obtain ⟨hs, hw⟩ := no_source (S := S) (a := (.spawn : Action δ)) (by simp)
        exact spawn_does H hok (Option.some.inj hx).symm (by rw [hpc]; rfl) hs hw
      · intro hf hh; cases hpc : S.pc <;> simp_all [step]
  | run =>
      refine hcall ?_ ?_ ?_ h
      · intro f e hpc; simp [step, hpc]
      · intro hpc hx
        simp only [step, hpc] at hx
        rw [hpc] at hhere
        obtain rfl := Option.some.inj hx
        obtain ⟨hs, hw⟩ := no_source (S := S) (a := (.run : Action δ)) (by simp)
        exact skip_does hok rfl rfl hhere hs hw (by simp [pending]) (by simp [pending])
      · intro hf hh; cases hpc : S.pc <;> simp_all [step]
  | _ =>
      refine hcall ?_ ?_ ?_ h
      · intro f e hpc; simp [step, hpc]
      · intro hpc hx; simp [step, hpc] at hx
      · intro hf hh; cases hpc : S.pc <;> simp_all [step]

end

/-! ## §9. Runs. -/

/-- **Every run keeps the invariant.** -/
theorem exec_ok (H : LibcOk T L out good) {S S' : Sys T γ σ κ} {q : List Nat}
    {as : List (Action δ)} (hok : Ok out good S q) (h : exec (step L P K) S as = some S') :
    ∃ q', Ok out good S' q' := by
  apply exec_inv (fun S => ∃ q, Ok out good S q) _ ⟨q, hok⟩ h
  rintro s a s' ⟨q, hok⟩ hs
  obtain ⟨m, q', hdoes⟩ := step_does H hok hs
  exact ⟨q', hdoes.ok⟩

/-- A fresh reactor with nothing in its libc heap. -/
structure Fresh (T : Target) (out : γ → List Region) (good : γ → Prop) (r : Reactor T γ σ κ) :
    Prop where
  created : ∃ sizeof_fiber m c sp k now,
    cfiber_reactor_create T sizeof_fiber m c sp k now = some r ∧ (∀ p, m.state p = .FB_FREE) ∧
      good c ∧ out c = []

theorem boot_ok {r : Reactor T γ σ κ} (h : Fresh T out good r) : Ok out good (boot r) [] := by
  obtain ⟨sizeof_fiber, m, c, sp, k, now, hc, hm, hg, ho⟩ := h.created
  obtain ⟨hcore, hpool⟩ := create_core hc hm hg ho
  have hfields : r.current = none ∧ r.zombie = none := by
    unfold cfiber_reactor_create at hc
    split at hc
    · exact absurd hc (by simp)
    · obtain rfl := Option.some.inj hc
      exact ⟨rfl, rfl⟩
  exact ⟨hcore, hpool, hfields⟩

end CFiber.Ev
