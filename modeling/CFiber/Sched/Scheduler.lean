/-
  CFiber.Sched.Scheduler — the built-in scheduler (`scheduler.c`, `fixed_size_stack_allocator.c`).

  Tasks are addressed by the block they live in, and the memory of the task struct is modelled one
  map per field.  Task blocks and stack blocks come from two multislabs over one backing allocator.
  `active_count` is a `uint32_t` and wraps.  The stack sanitizer is not compiled in; of the address
  sanitizer only the redzone below each stack is modelled.

  A state of the system is the scheduler with the place control has reached: the host, the loop of
  `cfiber_scheduler_run`, a fiber, or a trap.  The entry function a fiber was given is the number of
  its spawn; `events` is a history variable that no step reads.
-/
import CFiber.Base.Linked
import CFiber.Base.Run
import CFiber.Memory.Shared
import CFiber.Stacks.Growable

namespace CFiber.Sched

open CFiber.Base CFiber.Memory

variable {T : Target} {γ : Type}

/-! ## §1. Tasks and the scheduler. -/

/-- The memory of the `cfiber_task_t` structs; `entry` is the function, with its argument, that the
fiber's context starts in. -/
structure TaskMem where
  entry : Nat → Nat
  fiber_stack : Nat → Nat
  fiber_stack_size : Nat → Nat
  stack : Nat → Stack
  next : Nat → Option Nat

/-- `cfiber_scheduler_t`, with the memory of its tasks and the backing allocator's state. -/
structure Scheduler (T : Target) (γ : Type) where
  task_alloc : Multislab T
  stack_alloc : Multislab T
  current : Option Nat
  zombie : Option Nat
  ready_head : Option Nat
  ready_tail : Option Nat
  stack_size : Nat
  active_count : UInt32
  mem : TaskMem
  mem_ctx : γ

/-- `cfiber_scheduler_config_t`. -/
structure Config where
  stack_size : Nat
  fibers_per_slab : UInt32
  max_slabs : UInt32
  deriving DecidableEq, Repr

def enqueue_ready (s : Scheduler T γ) (t : Nat) : Scheduler T γ :=
  let s := { s with mem := { s.mem with next := Function.update s.mem.next t none } }
  let s := match s.ready_tail with
    | some tail => { s with mem := { s.mem with next := Function.update s.mem.next tail (some t) } }
    | none => { s with ready_head := some t }
  { s with ready_tail := some t }

def dequeue_ready (s : Scheduler T γ) : Option Nat × Scheduler T γ :=
  match s.ready_head with
  | none => (none, s)
  | some t =>
    let s := { s with ready_head := s.mem.next t }
    let s := match s.ready_head with
      | some _ => s
      | none => { s with ready_tail := none }
    (some t, { s with mem := { s.mem with next := Function.update s.mem.next t none } })

/-! ## §2. Fixed-size stacks. -/

/-- The fields `cfiber_fixed_stack_alloc` fills in for the block at `mem`. -/
def fixed_stack (T : Target) (mem block_size : Nat) : Stack :=
  ⟨some mem, T.wrap (mem + T.ASAN_REDZONE), T.wrap (mem + block_size), block_size⟩

/-- `none` is the `-1` return. -/
def cfiber_fixed_stack_alloc (B : Backing γ) (ms : Multislab T) (c : γ) :
    Option Stack × Multislab T × γ :=
  match cfiber_multislab_alloc B ms c with
  | (none, ms, c) => (none, ms, c)
  | (some mem, ms, c) => (some (fixed_stack T mem ms.block_size), ms, c)

/-- Without the stack sanitizer no overflow is ever found. -/
def cfiber_fixed_stack_release (B : Backing γ) (stack : Stack) (ms : Multislab T) (c : γ) :
    Bool × Multislab T × γ :=
  (true, cfiber_multislab_release B ms (stack.mem_base.getD 0) c)

/-! ## §3. The scheduler's functions. -/

/-- `align_up`, for a power of two. -/
def align_up (T : Target) (v align : Nat) : Nat := T.wrap (v + align - 1) / align * align

def DEFAULT_PER_SLAB : UInt32 := 16

/-- `sizeof_task` is `sizeof(cfiber_task_t)`; `m` and `c` are the memory and the allocator's state
it starts from.  `none` is the `-1` return. -/
def cfiber_scheduler_init_ext (T : Target) (sizeof_task : Nat) (config : Config) (m : TaskMem)
    (c : γ) : Option (Scheduler T γ) :=
  if config.stack_size = 0 ∨ config.stack_size < 256 then none
  else
    let per_slab := if config.fibers_per_slab ≠ 0 then config.fibers_per_slab else DEFAULT_PER_SLAB
    let task_block := align_up T sizeof_task T.CACHE_LINE_SIZE
    match cfiber_multislab_init_ext T task_block per_slab config.max_slabs 1 with
    | none => none
    | some task_alloc =>
      let stack_block := align_up T (T.wrap (config.stack_size + T.ASAN_REDZONE)) T.CACHE_LINE_SIZE
      match cfiber_multislab_init_ext T stack_block per_slab config.max_slabs 1 with
      | none => none
      | some stack_alloc => some
        { task_alloc := task_alloc
          stack_alloc := stack_alloc
          current := none
          zombie := none
          ready_head := none
          ready_tail := none
          stack_size := config.stack_size
          active_count := 0
          mem := m
          mem_ctx := c }

/-- The block `task` becomes a fiber and goes to the back of the queue. -/
def task_start (s : Scheduler T γ) (task : Nat) (stack : Stack) (func : Nat) : Scheduler T γ :=
  let s := { s with
    mem := { s.mem with
      stack := Function.update s.mem.stack task stack
      fiber_stack := Function.update s.mem.fiber_stack task stack.usable_base
      fiber_stack_size := Function.update s.mem.fiber_stack_size task s.stack_size
      next := Function.update s.mem.next task none
      entry := Function.update s.mem.entry task func } }
  let s := enqueue_ready s task
  { s with active_count := s.active_count + 1 }

def cfiber_scheduler_spawn (B : Backing γ) (s : Scheduler T γ) (func : Nat) :
    Bool × Scheduler T γ :=
  match cfiber_multislab_alloc B s.task_alloc s.mem_ctx with
  | (none, ms, c) => (false, { s with task_alloc := ms, mem_ctx := c })
  | (some task, ms, c) =>
    let s := { s with task_alloc := ms, mem_ctx := c }
    match cfiber_fixed_stack_alloc B s.stack_alloc s.mem_ctx with
    | (none, ms, c) =>
      let s := { s with stack_alloc := ms, mem_ctx := c }
      let (ms, c) := cfiber_multislab_release B s.task_alloc task s.mem_ctx
      (false, { s with task_alloc := ms, mem_ctx := c })
    | (some stack, ms, c) =>
      (true, task_start { s with stack_alloc := ms, mem_ctx := c } task stack func)

/-- `none` is the trap on an overflowed stack. -/
def task_free (B : Backing γ) (s : Scheduler T γ) (t : Nat) : Option (Scheduler T γ) :=
  match cfiber_fixed_stack_release B (s.mem.stack t) s.stack_alloc s.mem_ctx with
  | (false, _, _) => none
  | (true, ms, c) =>
    let s := { s with stack_alloc := ms, mem_ctx := c }
    let (ms, c) := cfiber_multislab_release B s.task_alloc t s.mem_ctx
    some { s with task_alloc := ms, mem_ctx := c }

/-- `if (sched->zombie)`: the last fiber to complete is freed. -/
def free_zombie (B : Backing γ) (s : Scheduler T γ) : Option (Scheduler T γ) :=
  match s.zombie with
  | none => some s
  | some t => (task_free B s t).map fun s => { s with zombie := none }

/-- On the dying fiber's stack, up to the switch to the loop. -/
def builtin_return_hook (s : Scheduler T γ) : Scheduler T γ :=
  { s with zombie := s.current, current := none, active_count := s.active_count - 1 }

/-- `true` if the fiber leaves to the loop. -/
def cfiber_yield (s : Scheduler T γ) : Bool × Scheduler T γ :=
  match s.current with
  | none => (false, s)
  | some cur =>
    match s.ready_head with
    | none => (false, s)  -- the only fiber
    | some _ => (true, { enqueue_ready s cur with current := none })

/-! ## §4. The system. -/

/-- Where control is. -/
inductive Pc where
  /-- Outside `cfiber_scheduler_run`. -/
  | host
  /-- At `while (sched->active_count > 0)`, on the caller's stack. -/
  | loop
  /-- On the stack of task `t`. -/
  | fiber (t : Nat)
  /-- At a `__builtin_trap`. -/
  | trap
  deriving DecidableEq, Repr

/-- What happened, fibers by the number of their spawn. -/
inductive Event where
  /-- A spawn by fiber `caller`, or by the host; and the fiber it made. -/
  | spawn (caller made : Option Nat)
  | yield (f : Nat)
  | ret (f : Nat)
  /-- Task and stack are released. -/
  | free (f : Nat)
  deriving DecidableEq, Repr

structure Sys (T : Target) (γ : Type) where
  s : Scheduler T γ
  pc : Pc
  spawned : Nat
  events : List Event

inductive Action where
  /-- `cfiber_scheduler_spawn` by the host, `cfiber_spawn` by a fiber. -/
  | spawn
  | run
  /-- The loop's next turn. -/
  | turn
  | yield
  /-- The running fiber's entry function returns. -/
  | finish
  deriving DecidableEq, Repr

/-- The fiber that has control. -/
def Sys.running (S : Sys T γ) : Option Nat :=
  match S.pc with
  | .fiber t => some (S.s.mem.entry t)
  | _ => none

def spawn (B : Backing γ) (S : Sys T γ) : Sys T γ :=
  match cfiber_scheduler_spawn B S.s S.spawned with
  | (false, s) => { S with s := s, events := S.events ++ [.spawn S.running none] }
  | (true, s) =>
    { S with
      s := s
      spawned := S.spawned + 1
      events := S.events ++ [.spawn S.running (some S.spawned)] }

/-- What freeing the zombie adds to the history. -/
def freed (s : Scheduler T γ) : List Event := (s.zombie.map fun t => .free (s.mem.entry t)).toList

def turn (B : Backing γ) (S : Sys T γ) : Sys T γ :=
  match free_zombie B S.s with
  | none => { S with pc := .trap }
  | some s =>
    if S.s.active_count > 0 then
      match dequeue_ready s with
      -- live fibers but an empty ready queue: nothing left to run, nothing to return to
      | (none, s) => { S with s := s, pc := .trap, events := S.events ++ freed S.s }
      | (some t, s) =>
        { S with s := { s with current := some t }, pc := .fiber t, events := S.events ++ freed S.s }
    else { S with s := s, pc := .host, events := S.events ++ freed S.s }

/-- **One step of the system**; `none` where the action is not possible. -/
def step (B : Backing γ) (S : Sys T γ) : Action → Option (Sys T γ)
  | .spawn =>
    match S.pc with
    | .host | .fiber _ => some (spawn B S)
    | .loop | .trap => none
  | .run =>
    match S.pc with
    | .host => some { S with pc := .loop }
    | _ => none
  | .turn =>
    match S.pc with
    | .loop => some (turn B S)
    | _ => none
  | .yield =>
    match S.pc with
    | .fiber t =>
      let (left, s) := cfiber_yield S.s
      some { S with
        s := s
        pc := if left then .loop else .fiber t
        events := S.events ++ [.yield (S.s.mem.entry t)] }
    | _ => none
  | .finish =>
    match S.pc with
    | .fiber t =>
      some { S with
        s := builtin_return_hook S.s
        pc := .loop
        events := S.events ++ [.ret (S.s.mem.entry t)] }
    | _ => none

/-- The system around a scheduler that was just initialised. -/
def boot (s : Scheduler T γ) : Sys T γ := ⟨s, .host, 0, []⟩

/-! ## §5. The link surgery in library terms. -/

theorem enqueue_ready_eq (s : Scheduler T γ) (t : Nat) :
    enqueue_ready s t =
      { s with
        mem := { s.mem with next := snocNext s.mem.next s.ready_tail t }
        ready_head := snocHead s.ready_head s.ready_tail t
        ready_tail := some t } := by
  unfold enqueue_ready snocNext snocHead
  cases s.ready_tail <;> rfl

theorem dequeue_ready_eq {s : Scheduler T γ} {t : Nat} (h : s.ready_head = some t) :
    dequeue_ready s = (some t,
      { s with
        mem := { s.mem with next := Function.update s.mem.next t none }
        ready_head := s.mem.next t
        ready_tail := popTail (s.mem.next t) s.ready_tail }) := by
  unfold dequeue_ready popTail
  simp only [h]
  cases s.mem.next t <;> rfl

end CFiber.Sched
