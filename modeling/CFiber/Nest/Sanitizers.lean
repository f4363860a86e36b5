/-
  CFiber.Nest.Sanitizers — the thread with what it tells the sanitizers (`asan.c`, `asan.h`,
  `tsan.h`).

  Swapping the stack pointer behind the sanitizers' back makes their notion of the current stack
  stale, so every switch is announced.  For AddressSanitizer a switch is bracketed by a start, which
  names the bounds of the stack to come, and a finish on the other side, from `cfiber_asan_switch`
  where a context is resumed and from `cfiber_asan_on_fiber_entry` where it is new; a fiber leaves
  to the bounds of its host, which the first entry of a run records.  For ThreadSanitizer every
  fiber of a reactor has a context, and each switch of a reactor names the one to come; the core
  library is not instrumented.

  `Traced` is `Thread` with these calls in the places where the source has them.  Of the runtimes
  the documented contract is modelled: a finish without a start, a start inside a switch, a switch
  to a context that is gone or its destruction while in use are errors, after which `died` is set.

    • `Traced.step_thread` — the calls do not change what the thread does.
-/
import CFiber.Nest.ReturnHook

namespace CFiber.Nest

open CFiber.Base

/-! ## §1. The runtimes. -/

/-- Lowest address and size of a stack. -/
abbrev Bounds := Nat × Nat

/-- Whose stack, fake stack or context: the thread's own, or a fiber's. -/
inductive Owner where
  | thread
  | fiber (f : Nat)
  deriving DecidableEq, Repr

/-- AddressSanitizer: the stack it takes to be current, inside a switch the stack to come, and the
fake stack in use with the stack it was made for. -/
structure AsanRuntime where
  stack : Bounds
  switching : Option Bounds
  fake : Option Owner
  died : Bool
  deriving DecidableEq, Repr

/-- `__sanitizer_start_switch_fiber`: the fake stack is handed out to be kept, or freed. -/
def start_switch_fiber (a : AsanRuntime) (save : Bool) (next : Bounds) : Option Owner × AsanRuntime :=
  match a.switching with
  | some _ => (none, { a with died := true })
  | none => (if save then a.fake else none, { a with switching := some next, fake := none })

/-- `__sanitizer_finish_switch_fiber`, with the bounds of the stack that was left. -/
def finish_switch_fiber (a : AsanRuntime) (fake : Option Owner) : Bounds × AsanRuntime :=
  match a.switching with
  | none => ((0, 0), { a with died := true })
  | some next => (a.stack, { a with stack := next, switching := none, fake := fake })

/-- ThreadSanitizer: the current context, and the contexts there are. -/
structure TsanRuntime where
  current : Owner
  made : Owner → Bool
  died : Bool

/-- `__tsan_switch_to_fiber`. -/
def switch_to_fiber (t : TsanRuntime) (o : Owner) : TsanRuntime :=
  if t.made o then { t with current := o } else { t with died := true }

/-- `__tsan_create_fiber`. -/
def create_fiber (t : TsanRuntime) (o : Owner) : TsanRuntime :=
  { t with made := Function.update t.made o true }

/-- `__tsan_destroy_fiber`. -/
def destroy_fiber (t : TsanRuntime) (o : Owner) : TsanRuntime :=
  if t.made o ∧ t.current ≠ o then { t with made := Function.update t.made o false }
  else { t with died := true }

/-! ## §2. `asan.c`. -/

/-- The thread-locals of `asan.c`; `fake_stack w` is the local of the `cfiber_asan_switch` that left
`w`, `prev_host k` what call `k` of a run function got from `cfiber_asan_host_begin`. -/
structure Asan where
  tl_host : Bounds
  tl_host_known : Bool
  tl_switch_pending : Bool
  fake_stack : Where → Option Owner
  prev_host : Nat → Bounds × Bool
  runtime : AsanRuntime

/-- `cfiber_asan_switch` up to its `cfiber_switch_context`, control being at `w`. -/
def asan_leave (a : Asan) (w : Where) (next : Bounds) (finishing : Bool) : Asan :=
  { a with
    tl_switch_pending := true
    fake_stack := Function.update a.fake_stack w
      (start_switch_fiber a.runtime (!finishing) next).1
    runtime := (start_switch_fiber a.runtime (!finishing) next).2 }

/-- `cfiber_asan_switch` from there on, when `w` is resumed. -/
def asan_resume (a : Asan) (w : Where) : Asan :=
  if a.tl_switch_pending then
    { a with
      tl_switch_pending := false
      runtime := (finish_switch_fiber a.runtime (a.fake_stack w)).2 }
  else a

def cfiber_asan_on_fiber_entry (a : Asan) : Asan :=
  if a.tl_switch_pending then
    { a with
      tl_switch_pending := false
      runtime := (finish_switch_fiber a.runtime none).2
      -- the first entry of a run records the stack it is entered from
      tl_host := if a.tl_host_known then a.tl_host else (finish_switch_fiber a.runtime none).1
      tl_host_known := true }
  else a

def cfiber_asan_host_begin (a : Asan) (k : Nat) : Asan :=
  { a with
    prev_host := Function.update a.prev_host k (a.tl_host, a.tl_host_known)
    tl_host_known := false }

def cfiber_asan_host_end (a : Asan) (k : Nat) : Asan :=
  { a with tl_host := (a.prev_host k).1, tl_host_known := (a.prev_host k).2 }

/-! ## §3. The thread with its announcements. -/

/-- `loop_tsan r` is the field of reactor `r`, `prev_loop_tsan k` the local of call `k`.  `entered f`
says that the context of fiber `f` is past `cfiber_prologue`. -/
structure Traced where
  thread : Thread
  asan : Asan
  tsan : TsanRuntime
  loop_tsan : Nat → Owner
  prev_loop_tsan : Nat → Owner
  entered : Nat → Bool

/-- Whose stack the loop of call `k` runs on. -/
def Thread.host_owner (S : Thread) (k : Nat) : Owner :=
  match (S.frames k).caller with
  | .fiber f => .fiber f
  | _ => .thread

/-- Whose stack executes. -/
def Thread.stack_owner (S : Thread) : Owner :=
  match S.pc with
  | .fiber f => .fiber f
  | .loop k => S.host_owner k
  | _ => .thread

/-- What happens: an action, or the code that has control makes AddressSanitizer use a fake stack. -/
inductive Event where
  | act (a : Action)
  | use_fake_stack
  deriving DecidableEq, Repr

namespace Traced

/-- Control is at `w` now: in a new fiber's prologue, or inside a `cfiber_asan_switch`. -/
def arrive (X : Traced) (w : Where) (a : Asan) : Asan :=
  match w with
  | .fiber f => if X.entered f then asan_resume a w else cfiber_asan_on_fiber_entry a
  | _ => asan_resume a w

def enter_prologue (entered : Nat → Bool) : Where → Nat → Bool
  | .fiber f => Function.update entered f true
  | _ => entered

section
variable (B : Owner → Bounds)

/-- `leave_to_loop`, and where the scheduler leaves to its loop. -/
def switch_out (X : Traced) (l : Loop) (f : Nat) (finishing : Bool) (change : Record → Record) :
    Traced :=
  let dest := (X.thread.records l).ctx
  { X with
    thread := Nest.switch_out X.thread l f change
    asan := X.arrive dest (asan_leave X.asan X.thread.pc X.asan.tl_host finishing)
    tsan := match l with
      | .reactor r => switch_to_fiber X.tsan (X.loop_tsan r)
      | .sched _ => X.tsan
    entered := enter_prologue X.entered dest }

/-- `enter_fiber`, and where the scheduler dispatches. -/
def dispatch (X : Traced) (l : Loop) (f : Nat) (rest : List Nat) : Traced :=
  let dest := X.thread.fctx f
  { X with
    thread := Nest.dispatch X.thread l f rest
    asan := X.arrive dest (asan_leave X.asan X.thread.pc (B (.fiber f)) false)
    tsan := match l with
      | .reactor _ => switch_to_fiber X.tsan (.fiber f)
      | .sched _ => X.tsan
    entered := enter_prologue X.entered dest }

def enter (X : Traced) (l : Loop) : Traced :=
  let k := X.thread.calls
  let X := { X with thread := Nest.enter X.thread l, asan := cfiber_asan_host_begin X.asan k }
  match l with
  | .sched _ => X
  | .reactor r =>
    { X with
      prev_loop_tsan := Function.update X.prev_loop_tsan k (X.loop_tsan r)
      -- a nested run's host is the outer fiber
      loop_tsan := Function.update X.loop_tsan r X.tsan.current }

def leave (X : Traced) (k : Nat) (rc : Int) : Traced :=
  let X' := { X with thread := Nest.leave X.thread k rc, asan := cfiber_asan_host_end X.asan k }
  match (X.thread.frames k).loop with
  | .sched _ => X'
  | .reactor r => { X' with loop_tsan := Function.update X.loop_tsan r (X.prev_loop_tsan k) }

def spawn (X : Traced) (l : Loop) (ok : Bool) : Traced :=
  { X with
    thread := Nest.spawn X.thread l ok
    tsan := match l with
      | .reactor _ => if ok then create_fiber X.tsan (.fiber X.thread.spawned) else X.tsan
      | .sched _ => X.tsan
    entered := if ok then Function.update X.entered X.thread.spawned false else X.entered }

/-- `task_free`, `fiber_recycle`. -/
def reap (X : Traced) (l : Loop) : Traced :=
  { X with
    thread := Nest.reap X.thread l
    tsan := match l, (X.thread.records l).zombie with
      | .reactor _, some z => destroy_fiber X.tsan (.fiber z)
      | _, _ => X.tsan }

/-- A step that announces nothing. -/
def quiet (X : Traced) (S : Thread) : Traced := { X with thread := S }

/-! ### Calls. -/

def cfiber_epilogue (X : Traced) : Traced :=
  match X.thread.s_return_hook with
  | none => X.quiet { X.thread with pc := .trap }
  | some hook =>
    match (X.thread.records hook.loop).current with
    | none => X.quiet { X.thread with pc := .trap }
    | some dead => X.switch_out hook.loop dead true fun r =>
        { r with zombie := some dead, current := none, active := r.active - 1 }

def cfiber_spawn (X : Traced) (ok : Bool) : Traced :=
  match X.thread.s_current_sched with
  | none => X
  | some s => X.spawn (.sched s) ok

def cfiber_ev_spawn (X : Traced) (ok : Bool) : Traced :=
  match X.thread.g_reactor with
  | none => X
  | some r => X.spawn (.reactor r) ok

def cfiber_yield (X : Traced) : Traced :=
  match X.thread.s_current_sched with
  | none => X
  | some s =>
    match (X.thread.records (.sched s)).current with
    | none => X
    | some cur =>
      if (X.thread.records (.sched s)).ready = [] then X
      else X.switch_out (.sched s) cur false fun r =>
        { r with ready := r.ready ++ [cur], current := none }

def cfiber_ev_yield (X : Traced) : Traced :=
  match running_fiber X.thread with
  | none => X
  | some (s, cur) => X.switch_out (.reactor s) cur false fun r =>
      { r with current := none, ready := r.ready ++ [cur] }

def cfiber_ev_wait (X : Traced) (ok : Bool) : Traced :=
  match running_fiber X.thread with
  | none => X
  | some (s, cur) =>
    if ok then X.switch_out (.reactor s) cur false fun r =>
      { r with parked := r.parked ++ [cur], current := none }
    else X

def cfiber_reactor_run (X : Traced) (r : Nat) : Traced :=
  if X.thread.g_reactor = some r then X.quiet (Nest.cfiber_reactor_run X.thread r)
  else X.enter (.reactor r)

def call (X : Traced) : Action → Option Traced
  | .spawn l ok => some (X.spawn l ok)
  | .cfiber_spawn ok => some (X.cfiber_spawn ok)
  | .cfiber_ev_spawn ok => some (X.cfiber_ev_spawn ok)
  | .run (.sched s) => some (X.enter (.sched s))
  | .run (.reactor r) => some (X.cfiber_reactor_run r)
  | .cfiber_yield => some X.cfiber_yield
  | .cfiber_ev_yield => some X.cfiber_ev_yield
  | .cfiber_ev_wait ok => some (X.cfiber_ev_wait ok)
  | .finish | .turn _ => none

/-! ### Loops. -/

def scheduler_turn (X : Traced) (k s : Nat) : Traced :=
  let X := X.reap (.sched s)
  if (X.thread.records (.sched s)).active > 0 then
    match (X.thread.records (.sched s)).ready with
    | [] => X.quiet { X.thread with pc := .trap }
    | f :: rest => X.dispatch B (.sched s) f rest
  else X.leave k 0

def reactor_poll (X : Traced) (k r : Nat) (poll : Poll) : Traced :=
  if (X.thread.records (.reactor r)).active = 0 then X.leave k 0
  else
    match poll with
    | .failed => X.leave k (-1)
    | poll => X.quiet (Nest.reactor_poll X.thread k r poll)

def reactor_turn (X : Traced) (k r : Nat) (poll : Poll) : Traced :=
  match (X.thread.frames k).phase with
  | .top =>
    if (X.thread.records (.reactor r)).active.toInt32 > 0 then
      X.quiet (set_phase X.thread k
        (.round (X.thread.records (.reactor r)).ready.getLast? none))
    else X.leave k 0
  | .round stop last =>
    let X := X.reap (.reactor r)
    match (X.thread.records (.reactor r)).ready with
    | [] => X.reactor_poll k r poll
    | f :: rest =>
      if last ≠ none ∧ last = stop then X.reactor_poll k r poll
      else (X.quiet (set_phase X.thread k (.round stop (some f)))).dispatch B (.reactor r) f rest

def turn (X : Traced) (k : Nat) (poll : Poll) : Traced :=
  match (X.thread.frames k).loop with
  | .sched s => X.scheduler_turn B k s
  | .reactor r => X.reactor_turn B k r poll

/-- **One step.** -/
def step (X : Traced) : Event → Option Traced
  | .use_fake_stack =>
    some { X with asan := { X.asan with runtime := { X.asan.runtime with
      fake := some (X.asan.runtime.fake.getD X.thread.stack_owner) } } }
  | .act a =>
    match X.thread.pc with
    | .host => X.call a
    | .fiber _ =>
      match a with
      | .finish => some X.cfiber_epilogue
      | a => X.call a
    | .loop k =>
      match a with
      | .turn poll => some (X.turn B k poll)
      | _ => none
    | .trap => none

/-- A thread that runs no loop; `hook` is what it had registered. -/
def start (hook : Option Hook) : Traced where
  thread := Nest.start hook
  asan := {
    tl_host := (0, 0)
    tl_host_known := false
    tl_switch_pending := false
    fake_stack := fun _ => none
    prev_host := fun _ => ((0, 0), false)
    runtime := ⟨B .thread, none, none, false⟩ }
  tsan := ⟨.thread, fun o => o = .thread, false⟩
  loop_tsan := fun _ => .thread
  prev_loop_tsan := fun _ => .thread
  entered := fun _ => false

end

/-! ## §4. Erasure. -/

@[simp] theorem enter_thread (X : Traced) (l : Loop) :
    (X.enter l).thread = Nest.enter X.thread l := by
  cases l <;> rfl

@[simp] theorem leave_thread (X : Traced) (k : Nat) (rc : Int) :
    (X.leave k rc).thread = Nest.leave X.thread k rc := by
  unfold Traced.leave
  dsimp only
  split <;> rfl

theorem cfiber_epilogue_thread (X : Traced) :
    X.cfiber_epilogue.thread = Nest.cfiber_epilogue X.thread := by
  unfold Traced.cfiber_epilogue
  split
  case h_1 hhook => simp only [Nest.cfiber_epilogue, hhook, quiet]
  case h_2 hook hhook =>
    split
    case h_1 hcur => simp only [Nest.cfiber_epilogue, return_hook, hhook, hcur, quiet]
    case h_2 dead hcur =>
      simp only [Nest.cfiber_epilogue, return_hook, hhook, hcur, Traced.switch_out]

theorem cfiber_yield_thread (X : Traced) :
    X.cfiber_yield.thread = Nest.cfiber_yield X.thread := by
  unfold Traced.cfiber_yield Nest.cfiber_yield
  cases X.thread.s_current_sched with
  | none => rfl
  | some s =>
      dsimp only
      cases (X.thread.records (.sched s)).current with
      | none => rfl
      | some cur =>
          dsimp only
          split <;> rfl

theorem call_thread (X : Traced) (a : Action) :
    (X.call a).map thread = Nest.call X.thread a := by
  cases a with
  | spawn l ok => rfl
  | cfiber_spawn ok =>
      unfold Traced.call Nest.call Traced.cfiber_spawn Nest.cfiber_spawn
      cases X.thread.s_current_sched <;> rfl
  | cfiber_ev_spawn ok =>
      unfold Traced.call Nest.call Traced.cfiber_ev_spawn Nest.cfiber_ev_spawn
      cases X.thread.g_reactor <;> rfl
  | run l =>
      cases l with
      | sched s => rfl
      | reactor r =>
          unfold Traced.call Nest.call Traced.cfiber_reactor_run Nest.cfiber_reactor_run
          by_cases hr : X.thread.g_reactor = some r
          · simp [hr, quiet]
          · simp [hr]
  | cfiber_yield =>
      show some X.cfiber_yield.thread = _
      rw [cfiber_yield_thread]
      rfl
  | cfiber_ev_yield =>
      unfold Traced.call Nest.call Traced.cfiber_ev_yield Nest.cfiber_ev_yield
      cases running_fiber X.thread <;> rfl
  | cfiber_ev_wait ok =>
      unfold Traced.call Nest.call Traced.cfiber_ev_wait Nest.cfiber_ev_wait
      cases running_fiber X.thread with
      | none => rfl
      | some p => cases ok <;> rfl
  | finish => rfl
  | turn poll => rfl

theorem scheduler_turn_thread (B : Owner → Bounds) (X : Traced) (k s : Nat) :
    (X.scheduler_turn B k s).thread = Nest.scheduler_turn X.thread k s := by
  have hreap : (X.reap (.sched s)).thread = Nest.reap X.thread (.sched s) := rfl
  unfold Traced.scheduler_turn Nest.scheduler_turn
  dsimp only
  rw [hreap]
  split
  case isTrue =>
    cases ((Nest.reap X.thread (.sched s)).records (.sched s)).ready with
    | nil => rfl
    | cons f rest => rfl
  case isFalse => exact leave_thread _ k 0

theorem reactor_poll_thread (X : Traced) (k r : Nat) (poll : Poll) :
    (X.reactor_poll k r poll).thread = Nest.reactor_poll X.thread k r poll := by
  unfold Traced.reactor_poll Nest.reactor_poll
  by_cases hactive : (X.thread.records (.reactor r)).active = 0
  · rw [if_pos hactive, if_pos hactive, leave_thread]
  · rw [if_neg hactive, if_neg hactive]
    cases poll with
    | failed => exact leave_thread X k (-1)
    | interrupted => simp [quiet, hactive]
    | resume ws => simp [quiet, hactive]

theorem reactor_turn_thread (B : Owner → Bounds) (X : Traced) (k r : Nat) (poll : Poll) :
    (X.reactor_turn B k r poll).thread = Nest.reactor_turn X.thread k r poll := by
  unfold Traced.reactor_turn Nest.reactor_turn
  cases (X.thread.frames k).phase with
  | top =>
      dsimp only
      split
      case isTrue => rfl
      case isFalse => exact leave_thread X k 0
  | round stop last =>
      have hreap : (X.reap (.reactor r)).thread = Nest.reap X.thread (.reactor r) := rfl
      dsimp only
      rw [hreap]
      cases ((Nest.reap X.thread (.reactor r)).records (.reactor r)).ready with
      | nil => exact reactor_poll_thread _ k r poll
      | cons f rest =>
          dsimp only
          split
          case isTrue => exact reactor_poll_thread _ k r poll
          case isFalse => rfl

/-- **Erasure**: the announcements change nothing that the thread does. -/
theorem step_thread (B : Owner → Bounds) (X : Traced) (a : Action) :
    (X.step B (.act a)).map thread = Nest.step X.thread a := by
  unfold Traced.step Nest.step
  cases X.thread.pc with
  | host => exact call_thread X a
  | fiber f =>
      dsimp only
      cases a with
      | finish => exact congrArg some (cfiber_epilogue_thread X)
      | _ => exact call_thread X _
  | loop k =>
      dsimp only
      cases a with
      | turn poll =>
          refine congrArg some ?_
          unfold Traced.turn Nest.turn
          cases (X.thread.frames k).loop with
          | sched s => exact scheduler_turn_thread B X k s
          | reactor r => exact reactor_turn_thread B X k r poll
      | _ => rfl
  | trap => rfl

end Traced

end CFiber.Nest
