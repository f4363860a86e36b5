/-
  CFiber.Ev.Reactor — the reactor's data (`reactor.c`): fiber structs, the reactor struct, the clock
  and the two intrusive lists.

  Fiber structs are addressed by the block they live in.  The memory of the struct type is modelled
  one map per field (`FiberMem`), so `f->next = x` is an update of `next` at `f`; `dequeue` and the
  rest below read as the C functions do.  The reactor struct is extended by what its functions call
  out to: the libc heap, the stack pool, the kernel's epoll object, the clock and `errno`.

  `enqueued` and `repooled` are history variables: they count, for each fiber struct, the calls of
  `enqueue` and of `fiber_repool`.  No function reads them.
-/
import CFiber.Base.Linked
import CFiber.Memory.Multislab
import CFiber.Stacks.Growable

namespace CFiber.Ev

open CFiber.Base CFiber.Memory

/-! ## §1. Enumerations and small structs. -/

inductive FiberState where
  | FB_FREE
  | FB_READY
  | FB_RUNNING
  | FB_PARKED
  | FB_ZOMBIE
  deriving DecidableEq, Repr

/-- What a parked fiber waits for. -/
inductive ParkKind where
  | PARK_FD
  | PARK_TIMER
  | PARK_ASYNC
  deriving DecidableEq, Repr

/-- `cfiber_ev_status_t`. -/
inductive EvStatus where
  | READY
  | TIMEOUT
  | CANCELLED
  | ERROR
  deriving DecidableEq, Repr

inductive CmdKind where
  | CMD_WAKE
  | CMD_CANCEL
  deriving DecidableEq, Repr

/-- `cmd_t`: a command for the fiber a handle names. -/
structure Cmd where
  kind : CmdKind
  target : Option Nat
  gen : UInt64
  deriving DecidableEq, Repr

/-- Where a suspended fiber continues: at its entry function, or after the `leave_to_loop` of the
call it made. -/
inductive Ctx where
  | entry
  | yield
  | wait
  | sleep
  | async
  deriving DecidableEq, Repr

/-! ## §2. Fiber structs and the reactor. -/

/-- The memory of the `cfiber_reactor_fiber` structs, field by field. -/
structure FiberMem where
  ctx : Nat → Ctx
  fiber_stack : Nat → Nat
  fiber_stack_size : Nat → Nat
  stack : Nat → Stack
  next : Nat → Option Nat
  live_next : Nat → Option Nat
  live_prev : Nat → Option Nat
  state : Nat → FiberState
  park : Nat → ParkKind
  wake_pending : Nat → Bool
  generation : Nat → UInt64
  reg_fd : Nat → Int
  wait_fd : Nat → Int
  /-- `none` is `NO_TIMER`. -/
  timer_i : Nat → Option Nat
  deadline_ns : Nat → UInt64
  wait_status : Nat → EvStatus

/-- One `struct cfiber_reactor_fiber`, as its memory reads. -/
structure FiberStruct where
  ctx : Ctx
  fiber_stack : Nat
  fiber_stack_size : Nat
  stack : Stack
  next : Option Nat
  live_next : Option Nat
  live_prev : Option Nat
  state : FiberState
  park : ParkKind
  wake_pending : Bool
  generation : UInt64
  reg_fd : Int
  wait_fd : Int
  timer_i : Option Nat
  deadline_ns : UInt64
  wait_status : EvStatus

/-- The struct whose bytes are all zero; its timer slot is `0`, not `NO_TIMER`. -/
def FiberStruct.zero : FiberStruct where
  ctx := .entry
  fiber_stack := 0
  fiber_stack_size := 0
  stack := ⟨none, 0, 0, 0⟩
  next := none
  live_next := none
  live_prev := none
  state := .FB_FREE
  park := .PARK_FD
  wake_pending := false
  generation := 0
  reg_fd := 0
  wait_fd := 0
  timer_i := some 0
  deadline_ns := 0
  wait_status := .READY

/-- The struct at address `p`. -/
def FiberMem.read (m : FiberMem) (p : Nat) : FiberStruct where
  ctx := m.ctx p
  fiber_stack := m.fiber_stack p
  fiber_stack_size := m.fiber_stack_size p
  stack := m.stack p
  next := m.next p
  live_next := m.live_next p
  live_prev := m.live_prev p
  state := m.state p
  park := m.park p
  wake_pending := m.wake_pending p
  generation := m.generation p
  reg_fd := m.reg_fd p
  wait_fd := m.wait_fd p
  timer_i := m.timer_i p
  deadline_ns := m.deadline_ns p
  wait_status := m.wait_status p

/-- The structs at the addresses selected by `sel` are overwritten with zero bytes. -/
def FiberMem.wipe (m : FiberMem) (sel : Nat → Bool) : FiberMem where
  ctx := fun p => if sel p then FiberStruct.zero.ctx else m.ctx p
  fiber_stack := fun p => if sel p then FiberStruct.zero.fiber_stack else m.fiber_stack p
  fiber_stack_size :=
    fun p => if sel p then FiberStruct.zero.fiber_stack_size else m.fiber_stack_size p
  stack := fun p => if sel p then FiberStruct.zero.stack else m.stack p
  next := fun p => if sel p then FiberStruct.zero.next else m.next p
  live_next := fun p => if sel p then FiberStruct.zero.live_next else m.live_next p
  live_prev := fun p => if sel p then FiberStruct.zero.live_prev else m.live_prev p
  state := fun p => if sel p then FiberStruct.zero.state else m.state p
  park := fun p => if sel p then FiberStruct.zero.park else m.park p
  wake_pending := fun p => if sel p then FiberStruct.zero.wake_pending else m.wake_pending p
  generation := fun p => if sel p then FiberStruct.zero.generation else m.generation p
  reg_fd := fun p => if sel p then FiberStruct.zero.reg_fd else m.reg_fd p
  wait_fd := fun p => if sel p then FiberStruct.zero.wait_fd else m.wait_fd p
  timer_i := fun p => if sel p then FiberStruct.zero.timer_i else m.timer_i p
  deadline_ns := fun p => if sel p then FiberStruct.zero.deadline_ns else m.deadline_ns p
  wait_status := fun p => if sel p then FiberStruct.zero.wait_status else m.wait_status p

theorem FiberMem.wipe_read (m : FiberMem) (sel : Nat → Bool) (p : Nat) :
    (m.wipe sel).read p = if sel p then FiberStruct.zero else m.read p := by
  unfold FiberMem.read FiberMem.wipe
  split_ifs with h <;> simp [h]

/-- `struct cfiber_reactor` with the memory of its fibers and its environment: the libc heap
(`γ`), the stack pool (`σ`) and the epoll object (`κ`).  The command ring is a component of its
own (`CFiber.Commands`).  `active` and `blocked` are C's `int`; where `++` leaves its range they wrap,
as compiled code does. -/
structure Reactor (T : Target) (γ σ κ : Type) where
  mem : FiberMem
  current : Option Nat
  zombie : Option Nat
  ready_head : Option Nat
  ready_tail : Option Nat
  live_head : Option Nat
  fibers : Multislab T
  heap : Nat → Nat
  heap_len : Nat
  heap_cap : Nat
  fd_owner : Nat → Option Nat
  fd_owner_cap : Nat
  active : Int32
  blocked : Int32
  libc : γ
  stack_pool : σ
  epoll : κ
  clock : UInt64
  errno : Errno
  enqueued : Nat → Nat
  repooled : Nat → Nat

variable {T : Target} {γ σ κ : Type}

/-- The part of libc's heap the reactor uses.  `realloc` grows one of the reactor's own arrays to
the given number of bytes and keeps its contents; `false` is the null result. -/
structure Libc (γ : Type) where
  calloc : Nat → γ → Option Nat × γ
  free : Nat → γ → γ
  realloc : Nat → γ → Bool × γ

/-- The growable stack allocator. -/
structure StackPool (σ : Type) where
  cfiber_growable_stack_alloc : σ → Stack × σ
  cfiber_growable_stack_release : Stack → σ → σ

/-- `sizeof(void*)`. -/
def sizeof_ptr (T : Target) : Nat := T.WORD_BITS / 8

/-- `while (cap < need) cap *= 2;` in at most `fuel` turns. -/
def grow_cap (need : Nat) : (fuel cap : Nat) → Nat
  | 0, cap => cap
  | fuel + 1, cap => if cap < need then grow_cap need fuel (cap * 2) else cap

/-- `need` turns are enough: a positive capacity gains at least one with each doubling. -/
theorem grow_cap_ge {need : Nat} :
    ∀ (fuel cap : Nat), 0 < cap → need ≤ cap + fuel → need ≤ grow_cap need fuel cap := by
  intro fuel
  induction fuel with
  | zero =>
      intro cap _ hf
      exact hf
  | succ fuel ih =>
      intro cap hpos hf
      unfold grow_cap
      split_ifs with hlt
      · exact ih (cap * 2) (by omega) (by omega)
      · omega

/-! ## §3. Time. -/

/-- A deadline that never comes. -/
def NO_DEADLINE : UInt64 := UInt64.ofNat (2 ^ 64 - 1)

def deadline_after (s : Reactor T γ σ κ) (ns : UInt64) : UInt64 :=
  let now := s.clock
  if ns > NO_DEADLINE - now then NO_DEADLINE else now + ns

def INT32_MAX : Int32 := Int32.maxValue

/-- Milliseconds to the earliest deadline, rounded up, for `epoll_wait`. -/
def next_timeout_ms (s : Reactor T γ σ κ) : Int32 :=
  if s.heap_len = 0 then -1  -- wait for descriptors or a command
  else
    let deadline := s.mem.deadline_ns (s.heap 0)
    let now := s.clock
    if deadline ≤ now then 0
    else
      let left := deadline - now
      -- the cap also keeps the round-up below from overflowing
      if left ≥ INT32_MAX.toInt64.toUInt64 * 1000000 then INT32_MAX
      else ((left + 999999) / 1000000).toUInt32.toInt32

/-! ## §4. The ready queue. -/

def enqueue (s : Reactor T γ σ κ) (f : Nat) : Reactor T γ σ κ :=
  let s := { s with mem := { s.mem with next := Function.update s.mem.next f none } }
  let s := match s.ready_tail with
    | some t => { s with mem := { s.mem with next := Function.update s.mem.next t (some f) } }
    | none => { s with ready_head := some f }
  { s with
    ready_tail := some f
    mem := { s.mem with state := Function.update s.mem.state f .FB_READY }
    enqueued := Function.update s.enqueued f (s.enqueued f + 1) }

def dequeue (s : Reactor T γ σ κ) : Option Nat × Reactor T γ σ κ :=
  match s.ready_head with
  | none => (none, s)
  | some f =>
    let s := { s with ready_head := s.mem.next f }
    let s := match s.ready_head with
      | some _ => s
      | none => { s with ready_tail := none }
    (some f, { s with mem := { s.mem with next := Function.update s.mem.next f none } })

/-- The link surgery of `enqueue` is the library's append. -/
theorem enqueue_eq (s : Reactor T γ σ κ) (f : Nat) :
    enqueue s f =
      { s with
        mem := { s.mem with
          next := snocNext s.mem.next s.ready_tail f
          state := Function.update s.mem.state f .FB_READY }
        ready_head := snocHead s.ready_head s.ready_tail f
        ready_tail := some f
        enqueued := Function.update s.enqueued f (s.enqueued f + 1) } := by
  unfold enqueue snocNext snocHead
  cases s.ready_tail <;> rfl

theorem dequeue_eq {s : Reactor T γ σ κ} {f : Nat} (h : s.ready_head = some f) :
    dequeue s = (some f,
      { s with
        mem := { s.mem with next := Function.update s.mem.next f none }
        ready_head := s.mem.next f
        ready_tail := popTail (s.mem.next f) s.ready_tail }) := by
  unfold dequeue popTail
  simp only [h]
  cases s.mem.next f <;> rfl

/-! ## §5. The live list. -/

def live_link (s : Reactor T γ σ κ) (f : Nat) : Reactor T γ σ κ :=
  let s := { s with mem := { s.mem with live_prev := Function.update s.mem.live_prev f none } }
  let s := { s with
    mem := { s.mem with live_next := Function.update s.mem.live_next f s.live_head } }
  let s := match s.live_head with
    | some h => { s with
        mem := { s.mem with live_prev := Function.update s.mem.live_prev h (some f) } }
    | none => s
  { s with live_head := some f }

def live_unlink (s : Reactor T γ σ κ) (f : Nat) : Reactor T γ σ κ :=
  let s := match s.mem.live_prev f with
    | some p => { s with
        mem := { s.mem with
          live_next := Function.update s.mem.live_next p (s.mem.live_next f) } }
    | none => { s with live_head := s.mem.live_next f }
  match s.mem.live_next f with
  | some n => { s with
      mem := { s.mem with
        live_prev := Function.update s.mem.live_prev n (s.mem.live_prev f) } }
  | none => s

theorem live_link_eq (s : Reactor T γ σ κ) (f : Nat) :
    live_link s f =
      { s with
        mem := { s.mem with
          live_next := Function.update s.mem.live_next f s.live_head
          live_prev := consPrev s.mem.live_prev s.live_head f }
        live_head := some f } := by
  unfold live_link consPrev
  cases s.live_head <;> rfl

theorem live_unlink_eq (s : Reactor T γ σ κ) (f : Nat) :
    live_unlink s f =
      { s with
        mem := { s.mem with
          live_next := unlinkNext s.mem.live_next s.mem.live_prev f
          live_prev := unlinkPrev s.mem.live_next s.mem.live_prev f }
        live_head := unlinkHead s.mem.live_next s.mem.live_prev s.live_head f } := by
  unfold live_unlink unlinkNext unlinkPrev unlinkHead
  cases hp : s.mem.live_prev f with
  | none => cases hn : s.mem.live_next f <;> simp [hn, hp]
  | some p =>
      have hkeep : Function.update s.mem.live_next p (s.mem.live_next f) f = s.mem.live_next f := by
        by_cases h : f = p
        · subst h; simp
        · simp [Function.update_of_ne h]
      cases hn : s.mem.live_next f with
      | none =>
          rw [hn] at hkeep
          simp [hkeep]
      | some n =>
          rw [hn] at hkeep
          simp [hp, hkeep]

end CFiber.Ev
