/-
  CFiber.Ev.Park — parking, resuming and the in-fiber API (`reactor.c`, "Park / resume" to
  `cfiber_ev_close`; `apply_cmd`; the expiry loop).

  A function that leaves the running fiber is cut in two at its `leave_to_loop`: the first part
  answers `none` and records in `ctx` where the fiber continues, `switch_return` is the rest.
-/
import CFiber.Ev.Descriptors

namespace CFiber.Ev

open CFiber.Base CFiber.Memory

variable {T : Target} {γ σ κ δ : Type}

/-! ## §1. Context switches. -/

/-- `enter_fiber`, up to the switch. -/
def enter_fiber (s : Reactor T γ σ κ) (f : Nat) : Reactor T γ σ κ :=
  let s := { s with current := some f }
  { s with mem := { s.mem with state := Function.update s.mem.state f .FB_RUNNING } }

/-- What the switched-in fiber does first: the rest of the call it parked in, and that call's
result (`none` at the entry function and after a yield, which return no status). -/
def switch_return (s : Reactor T γ σ κ) (f : Nat) : Option EvStatus × Reactor T γ σ κ :=
  match s.mem.ctx f with
  | .entry | .yield => (none, s)
  | .wait =>
    -- the one-shot is disarmed, the registration stays for the next wait
    let st := s.mem.wait_status f
    (some st, { s with mem := { s.mem with wait_fd := Function.update s.mem.wait_fd f (-1) } })
  | .sleep | .async => (some (s.mem.wait_status f), s)

/-- The hook that runs when a fiber's entry function returns. -/
def reactor_return_hook (s : Reactor T γ σ κ) : Reactor T γ σ κ :=
  match s.current with
  | none => s
  | some dead =>
    let s := { s with current := none }
    let s := { s with zombie := some dead }
    let s := { s with mem := { s.mem with state := Function.update s.mem.state dead .FB_ZOMBIE } }
    { s with active := s.active - 1 }

/-! ## §2. Park and resume. -/

/-- Move a parked fiber back onto the ready queue with the given status. -/
def resume (s : Reactor T γ σ κ) (f : Nat) (status : EvStatus) : Reactor T γ σ κ :=
  if s.mem.state f ≠ .FB_PARKED then s
  else
    let s := { s with
      mem := { s.mem with wait_status := Function.update s.mem.wait_status f status } }
    let s := { s with blocked := s.blocked - 1 }
    enqueue s f

/-- Detach a parked fiber from both wait sources and resume it. -/
def unpark (K : Kernel κ δ) (s : Reactor T γ σ κ) (f : Nat) (status : EvStatus) :
    Reactor T γ σ κ :=
  let s := detach_fd K s f
  let s := timer_remove s f
  resume s f status

/-- `park_current` up to its `leave_to_loop`; `f` is `s->current` and continues at `ctx`. -/
def park_current (s : Reactor T γ σ κ) (f : Nat) (kind : ParkKind) (ctx : Ctx) :
    Reactor T γ σ κ :=
  let s := { s with mem := { s.mem with park := Function.update s.mem.park f kind } }
  let s := { s with mem := { s.mem with state := Function.update s.mem.state f .FB_PARKED } }
  let s := { s with
    mem := { s.mem with wait_status := Function.update s.mem.wait_status f .READY } }
  let s := { s with blocked := s.blocked + 1 }
  let s := { s with current := none }
  { s with mem := { s.mem with ctx := Function.update s.mem.ctx f ctx } }

/-! ## §3. The blocking calls.

`none` means that the fiber left; otherwise the call returned at once. -/

def CFIBER_EV_IN : UInt32 := 1

def CFIBER_EV_OUT : UInt32 := 2

/-- The public direction bits as epoll's. -/
def epoll_events (direction : UInt32) : UInt32 :=
  (if direction &&& CFIBER_EV_IN ≠ 0 then EPOLLIN else 0) |||
    (if direction &&& CFIBER_EV_OUT ≠ 0 then EPOLLOUT else 0)

/-- No direction, or a bit that is not one of the two. -/
def bad_direction (direction : UInt32) : Bool :=
  direction == 0 || (direction &&& ~~~ (CFIBER_EV_IN ||| CFIBER_EV_OUT)) != 0

/-- The end of `cfiber_ev_wait`: park on `fd`. -/
def park_on_fd (s : Reactor T γ σ κ) (f : Nat) (fd : Int) : Option EvStatus × Reactor T γ σ κ :=
  let s := { s with mem := { s.mem with wait_fd := Function.update s.mem.wait_fd f fd } }
  (none, park_current s f .PARK_FD .wait)

def cfiber_ev_wait (L : Libc γ) (K : Kernel κ δ) (s : Reactor T γ σ κ) (fd : Int)
    (direction : UInt32) (timeout_ns : Int64) : Option EvStatus × Reactor T γ σ κ :=
  match s.current with
  | none => (some .ERROR, { s with errno := .EINVAL })
  | some f =>
    if bad_direction direction then (some .ERROR, { s with errno := .EINVAL })
    else match arm_fd L K s f fd (epoll_events direction) with
      | (false, s) => (some .ERROR, s)
      | (true, s) =>
        if timeout_ns ≥ 0 then
          match timer_add L s f (deadline_after s timeout_ns.toUInt64) with
          -- no timer, so the registration goes as well
          | (false, s) => (some .ERROR, { detach_fd K s f with errno := .ENOMEM })
          | (true, s) => park_on_fd s f fd
        else park_on_fd s f fd

def cfiber_ev_sleep (L : Libc γ) (s : Reactor T γ σ κ) (ns : UInt64) :
    Option EvStatus × Reactor T γ σ κ :=
  match s.current with
  | none => (some .ERROR, { s with errno := .EINVAL })
  | some f =>
    match timer_add L s f (deadline_after s ns) with
    | (false, s) => (some .ERROR, { s with errno := .ENOMEM })
    | (true, s) => (none, park_current s f .PARK_TIMER .sleep)

def cfiber_ev_wait_async (L : Libc γ) (s : Reactor T γ σ κ) (timeout_ns : Int64) :
    Option EvStatus × Reactor T γ σ κ :=
  match s.current with
  | none => (some .ERROR, { s with errno := .EINVAL })
  | some f =>
    if s.mem.wake_pending f then
      -- woken before parking: consume the permit
      (some .READY,
        { s with mem := { s.mem with wake_pending := Function.update s.mem.wake_pending f false } })
    else if timeout_ns ≥ 0 then
      match timer_add L s f (deadline_after s timeout_ns.toUInt64) with
      | (false, s) => (some .ERROR, { s with errno := .ENOMEM })
      | (true, s) => (none, park_current s f .PARK_ASYNC .async)
    else (none, park_current s f .PARK_ASYNC .async)

/-- Always leaves, except off a reactor fiber. -/
def cfiber_ev_yield (s : Reactor T γ σ κ) : Reactor T γ σ κ :=
  match s.current with
  | none => s
  | some cur =>
    let s := { s with current := none }
    let s := { s with mem := { s.mem with ctx := Function.update s.mem.ctx cur .yield } }
    enqueue s cur

/-! ## §4. Close, commands and deadlines. -/

/-- The registration of a descriptor about to be closed: a waiter is cancelled, an idle holder is
detached. -/
def release_holder (K : Kernel κ δ) (s : Reactor T γ σ κ) (fd : Int) : Reactor T γ σ κ :=
  match fd_owner_get s fd with
  | none => s
  | some holder =>
    if s.mem.state holder = .FB_PARKED ∧ s.mem.wait_fd holder = fd then
      unpark K s holder .CANCELLED
    else detach_fd K s holder  -- idle between two waits

/-- `close(fd)`; `false` is the `-1` return. -/
def close (K : Kernel κ δ) (s : Reactor T γ σ κ) (fd : Int) : Bool × Reactor T γ σ κ :=
  match K.close fd s.epoll with
  | (none, k) => (true, { s with epoll := k })
  | (some e, k) => (false, { s with epoll := k, errno := e })

def cfiber_ev_close (K : Kernel κ δ) (s : Reactor T γ σ κ) (fd : Int) :
    Bool × Reactor T γ σ κ :=
  close K (release_holder K s fd) fd

/-- The handle names no fiber that is still at work. -/
def stale (s : Reactor T γ σ κ) (f : Nat) (gen : UInt64) : Bool :=
  s.mem.generation f != gen || s.mem.state f == .FB_FREE || s.mem.state f == .FB_ZOMBIE

/-- The fiber a command is for, unless its handle is stale. -/
def addressee (s : Reactor T γ σ κ) (c : Cmd) : Option Nat :=
  c.target.filter fun f => !stale s f c.gen

def apply_cmd (K : Kernel κ δ) (s : Reactor T γ σ κ) (c : Cmd) : Reactor T γ σ κ :=
  match c.target with
  | none => s
  | some f =>
    -- a stale handle: the fiber completed or was recycled
    if stale s f c.gen then s
    else match c.kind with
      | .CMD_CANCEL =>
        if s.mem.state f = .FB_PARKED then unpark K s f .CANCELLED else s
      | .CMD_WAKE =>
        -- a wake resumes an async park only; anywhere else it leaves a permit
        if s.mem.state f = .FB_PARKED ∧ s.mem.park f = .PARK_ASYNC then unpark K s f .READY
        else { s with
          mem := { s.mem with wake_pending := Function.update s.mem.wake_pending f true } }

/-- The loop condition of `fire_expired_timers`. -/
def expired (s : Reactor T γ σ κ) (now : UInt64) : Bool :=
  decide (s.heap_len > 0) && decide (s.mem.deadline_ns (s.heap 0) ≤ now)

/-- One turn of `fire_expired_timers`. -/
def fire_timer (K : Kernel κ δ) (s : Reactor T γ σ κ) : Reactor T γ σ κ :=
  let f := s.heap 0
  let s := timer_remove s f
  -- drop any descriptor it was also waiting on
  let s := detach_fd K s f
  resume s f .TIMEOUT

/-- What the loop does for an event whose pointer is the fiber `w`. -/
def ready_event (s : Reactor T γ σ κ) (w : Nat) : Reactor T γ σ κ :=
  -- already woken this round by a timer or a cancel
  if s.mem.state w ≠ .FB_PARKED then s
  else
    -- drop the paired deadline, if any
    let s := timer_remove s w
    resume s w .READY

end CFiber.Ev
