/-
  CFiber.Nest.Thread — one thread with any number of schedulers and reactors, nested in any way.

  What decides which loop a fiber returns to are three variables of the thread, the fiber-return
  hook, the current scheduler and the current reactor, and what each call of
  `cfiber_scheduler_run` and `cfiber_reactor_run` saves of them on its stack (`fiber.c`,
  `scheduler.c`, `reactor.c`).  They are modelled as they are.  Of a loop's record the fields that
  control flow depends on are kept: the ready queue, the parked fibers, `current`, `zombie`, the
  number of live fibers and the loop's context.

  A context holds where control was when it was switched away from (`Where`): in the host's code, in
  a fiber's code, or in the loop of one particular call of a run function.  What an allocation, a
  wait source or a poll answers is a parameter of the action.

  `chain`, `calls`, `owner` and `dispatcher` are history variables that no function reads.
-/
import CFiber.Base.Run
import CFiber.Stacks.Growable
import Mathlib.Logic.Function.Basic

namespace CFiber.Nest

open CFiber.Base

/-! ## §1. Loops and contexts. -/

/-- A scheduler or a reactor. -/
inductive Loop where
  | sched (s : Nat)
  | reactor (r : Nat)
  deriving DecidableEq, Repr

/-- A registered fiber-return hook: the function with its context. -/
inductive Hook where
  | builtin_return_hook (ctx : Nat)
  | reactor_return_hook (ctx : Nat)
  deriving DecidableEq, Repr

/-- The hook that a loop registers. -/
def Loop.hook : Loop → Hook
  | .sched s => .builtin_return_hook s
  | .reactor r => .reactor_return_hook r

/-- The loop that a hook is given. -/
def Hook.loop : Hook → Loop
  | .builtin_return_hook s => .sched s
  | .reactor_return_hook r => .reactor r

/-- Where control is. -/
inductive Where where
  | host
  /-- In the code of fiber `f`, on its stack. -/
  | fiber (f : Nat)
  /-- In the loop of call `k`. -/
  | loop (k : Nat)
  /-- At a trap, or past a null pointer. -/
  | trap
  deriving DecidableEq, Repr

/-- A `cfiber_scheduler_t` or a `cfiber_reactor_t`; `ctx` is `sched_ctx`, `loop_ctx`.  `active` holds
the 32 bits of `active_count`, a `uint32_t`, or of the reactor's `active`, an `int`. -/
structure Record where
  ready : List Nat
  parked : List Nat
  current : Option Nat
  zombie : Option Nat
  active : UInt32
  ctx : Where
  deriving DecidableEq, Repr

/-- Where a reactor's loop is: at `while (s->active > 0)`, or in a round that ends with fiber `stop`
and has dispatched `last`. -/
inductive Phase where
  | top
  | round (stop last : Option Nat)
  deriving DecidableEq, Repr

/-- The locals of a call of `cfiber_scheduler_run` or `cfiber_reactor_run`. -/
structure Frame where
  loop : Loop
  prev : Option Nat
  prev_hook : Option Hook
  phase : Phase
  caller : Where
  deriving DecidableEq, Repr

/-- The thread; `rc` and `errno` are what the last `cfiber_reactor_run` left. -/
structure Thread where
  s_return_hook : Option Hook
  s_current_sched : Option Nat
  g_reactor : Option Nat
  records : Loop → Record
  fctx : Nat → Where
  frames : Nat → Frame
  pc : Where
  rc : Int
  errno : Option Errno
  chain : List Nat
  calls : Nat
  spawned : Nat
  owner : Nat → Option Loop
  dispatcher : Nat → Option Loop

/-! ## §2. Switching. -/

/-- A fiber of loop `l` leaves to the loop. -/
def switch_out (S : Thread) (l : Loop) (f : Nat) (change : Record → Record) : Thread :=
  { S with
    records := Function.update S.records l (change (S.records l))
    fctx := Function.update S.fctx f S.pc
    pc := (S.records l).ctx }

/-- Loop `l` dispatches the head of its queue. -/
def dispatch (S : Thread) (l : Loop) (f : Nat) (rest : List Nat) : Thread :=
  { S with
    records := Function.update S.records l
      { S.records l with ready := rest, current := some f, ctx := S.pc }
    pc := S.fctx f
    dispatcher := Function.update S.dispatcher f (some l) }

/-- `cfiber_set_return_hook`. -/
def cfiber_set_return_hook (S : Thread) (hook : Option Hook) : Option Hook × Thread :=
  (S.s_return_hook, { S with s_return_hook := hook })

/-- `builtin_return_hook`, `reactor_return_hook`: the loop's current fiber is taken to be the one
that returned. -/
def return_hook (S : Thread) (l : Loop) : Thread :=
  match (S.records l).current with
  | none => { S with pc := .trap }
  | some dead => switch_out S l dead fun r =>
      { r with zombie := some dead, current := none, active := r.active - 1 }

def cfiber_epilogue (S : Thread) : Thread :=
  match S.s_return_hook with
  | some hook => return_hook S hook.loop
  | none => { S with pc := .trap }

/-! ## §3. In-fiber calls. -/

/-- `cfiber_scheduler_spawn`, `cfiber_reactor_spawn`; `ok` says whether memory could be had. -/
def spawn (S : Thread) (l : Loop) (ok : Bool) : Thread :=
  if ok then
    { S with
      records := Function.update S.records l
        { S.records l with
          ready := (S.records l).ready ++ [S.spawned]
          active := (S.records l).active + 1 }
      fctx := Function.update S.fctx S.spawned (.fiber S.spawned)
      spawned := S.spawned + 1
      owner := Function.update S.owner S.spawned (some l) }
  else S

def cfiber_spawn (S : Thread) (ok : Bool) : Thread :=
  match S.s_current_sched with
  | none => S
  | some s => spawn S (.sched s) ok

def cfiber_ev_spawn (S : Thread) (ok : Bool) : Thread :=
  match S.g_reactor with
  | none => S
  | some r => spawn S (.reactor r) ok

def cfiber_yield (S : Thread) : Thread :=
  match S.s_current_sched with
  | none => S
  | some s =>
    match (S.records (.sched s)).current with
    | none => S
    | some cur =>
      if (S.records (.sched s)).ready = [] then S
      else switch_out S (.sched s) cur fun r =>
        { r with ready := r.ready ++ [cur], current := none }

/-- The reactor that in-fiber calls act on, with its current fiber. -/
def running_fiber (S : Thread) : Option (Nat × Nat) :=
  match S.g_reactor with
  | none => none
  | some r => (S.records (.reactor r)).current.map fun f => (r, f)

def cfiber_ev_yield (S : Thread) : Thread :=
  match running_fiber S with
  | none => S
  | some (s, cur) => switch_out S (.reactor s) cur fun r =>
      { r with current := none, ready := r.ready ++ [cur] }

/-- `cfiber_ev_wait`, `cfiber_ev_sleep`, `cfiber_ev_wait_async`; `ok` says whether the call gets as
far as `park_current`. -/
def cfiber_ev_wait (S : Thread) (ok : Bool) : Thread :=
  match running_fiber S with
  | none => S
  | some (s, cur) =>
    if ok then switch_out S (.reactor s) cur fun r =>
      { r with parked := r.parked ++ [cur], current := none }
    else S

/-! ## §4. Running a loop. -/

/-- Entering the loop: what the thread's variables were is saved on the stack. -/
def enter (S : Thread) (l : Loop) : Thread :=
  let prev := match l with
    | .sched _ => S.s_current_sched
    | .reactor _ => S.g_reactor
  let S := match l with
    | .sched s => { S with s_current_sched := some s }
    | .reactor r => { S with g_reactor := some r }
  let (prev_hook, S) := cfiber_set_return_hook S (some l.hook)
  { S with
    frames := Function.update S.frames S.calls ⟨l, prev, prev_hook, .top, S.pc⟩
    pc := .loop S.calls
    chain := S.calls :: S.chain
    calls := S.calls + 1 }

def cfiber_scheduler_run (S : Thread) (s : Nat) : Thread := enter S (.sched s)

def cfiber_reactor_run (S : Thread) (r : Nat) : Thread :=
  if S.g_reactor = some r then { S with errno := some .EBUSY, rc := -1 }
  else enter S (.reactor r)

/-- Call `k` returns `rc`. -/
def leave (S : Thread) (k : Nat) (rc : Int) : Thread :=
  let frame := S.frames k
  let (_, S) := cfiber_set_return_hook S frame.prev_hook
  let S := match frame.loop with
    | .sched _ => { S with s_current_sched := frame.prev }
    | .reactor _ => { S with g_reactor := frame.prev, rc := rc }
  { S with pc := frame.caller, chain := S.chain.erase k }

/-- The zombie is freed. -/
def reap (S : Thread) (l : Loop) : Thread :=
  { S with records := Function.update S.records l { S.records l with zombie := none } }

def set_phase (S : Thread) (k : Nat) (phase : Phase) : Thread :=
  { S with frames := Function.update S.frames k { S.frames k with phase := phase } }

/-- What `epoll_wait` and the wait sources answer. -/
inductive Poll where
  /-- The fibers `ws` are resumed. -/
  | resume (ws : List Nat)
  /-- `EINTR`. -/
  | interrupted
  | failed
  deriving DecidableEq, Repr

/-- `resume`: only a parked fiber is. -/
def resume (r : Record) (w : Nat) : Record :=
  if w ∈ r.parked then { r with parked := r.parked.erase w, ready := r.ready ++ [w] } else r

def scheduler_turn (S : Thread) (k s : Nat) : Thread :=
  let S := reap S (.sched s)
  if (S.records (.sched s)).active > 0 then
    match (S.records (.sched s)).ready with
    | [] => { S with pc := .trap }
    | f :: rest => dispatch S (.sched s) f rest
  else leave S k 0

/-- What follows the round. -/
def reactor_poll (S : Thread) (k r : Nat) (poll : Poll) : Thread :=
  if (S.records (.reactor r)).active = 0 then leave S k 0
  else
    match poll with
    | .failed => leave S k (-1)
    | .interrupted => set_phase S k .top
    | .resume ws =>
      set_phase
        { S with
          records := Function.update S.records (.reactor r)
            (ws.foldl resume (S.records (.reactor r))) }
        k .top

def reactor_turn (S : Thread) (k r : Nat) (poll : Poll) : Thread :=
  match (S.frames k).phase with
  | .top =>
    if (S.records (.reactor r)).active.toInt32 > 0 then
      set_phase S k (.round (S.records (.reactor r)).ready.getLast? none)
    else leave S k 0
  | .round stop last =>
    let S := reap S (.reactor r)
    match (S.records (.reactor r)).ready with
    | [] => reactor_poll S k r poll
    | f :: rest =>
      if last ≠ none ∧ last = stop then reactor_poll S k r poll
      else dispatch (set_phase S k (.round stop (some f))) (.reactor r) f rest

/-! ## §5. The system. -/

inductive Action where
  | spawn (l : Loop) (ok : Bool)
  | cfiber_spawn (ok : Bool)
  | cfiber_ev_spawn (ok : Bool)
  | run (l : Loop)
  | cfiber_yield
  | cfiber_ev_yield
  | cfiber_ev_wait (ok : Bool)
  /-- The entry function of the fiber that control is in returns. -/
  | finish
  /-- The loop that control is in goes on. -/
  | turn (poll : Poll)
  deriving DecidableEq, Repr

/-- A call from the host's code or a fiber's. -/
def call (S : Thread) : Action → Option Thread
  | .spawn l ok => some (spawn S l ok)
  | .cfiber_spawn ok => some (cfiber_spawn S ok)
  | .cfiber_ev_spawn ok => some (cfiber_ev_spawn S ok)
  | .run (.sched s) => some (cfiber_scheduler_run S s)
  | .run (.reactor r) => some (cfiber_reactor_run S r)
  | .cfiber_yield => some (cfiber_yield S)
  | .cfiber_ev_yield => some (cfiber_ev_yield S)
  | .cfiber_ev_wait ok => some (cfiber_ev_wait S ok)
  | .finish | .turn _ => none

def turn (S : Thread) (k : Nat) (poll : Poll) : Thread :=
  match (S.frames k).loop with
  | .sched s => scheduler_turn S k s
  | .reactor r => reactor_turn S k r poll

/-- **One step**; `none` where the action is not possible. -/
def step (S : Thread) (a : Action) : Option Thread :=
  match S.pc with
  | .host => call S a
  | .fiber _ =>
    match a with
    | .finish => some (cfiber_epilogue S)
    | a => call S a
  | .loop k =>
    match a with
    | .turn poll => some (turn S k poll)
    | _ => none
  | .trap => none

/-- A thread that runs no loop; `hook` is what it had registered. -/
def start (hook : Option Hook) : Thread where
  s_return_hook := hook
  s_current_sched := none
  g_reactor := none
  records := fun _ => ⟨[], [], none, none, 0, .host⟩
  fctx := fun _ => .host
  frames := fun _ => ⟨.sched 0, none, none, .top, .host⟩
  pc := .host
  rc := 0
  errno := none
  chain := []
  calls := 0
  spawned := 0
  owner := fun _ => none
  dispatcher := fun _ => none

end CFiber.Nest
