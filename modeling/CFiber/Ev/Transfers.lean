/-
  CFiber.Ev.Transfers — the calls a fiber makes (`reactor.c`, "POSIX byte-stream transport helpers").

  A helper is a loop around a system call that does not block and a `cfiber_ev_wait`.  `App` is the
  system with the call each fiber is in the middle of: a fiber in a helper does nothing else until
  the helper returns.  `Place` says where in its loop a helper is; the answers of the system calls
  are the choice of the `Do`.

  `entry` and `sent` are history variables: when the call was made, and the bytes of the buffer
  that `write(2)` took.
-/
import CFiber.Ev.Expiry

namespace CFiber.Ev

open CFiber.Base CFiber.Memory

variable {T : Target} {γ σ κ δ : Type}

/-! ## §1. Total deadlines. -/

def deadline_after_opt (s : Reactor T γ σ κ) (timeout_ns : Int64) : UInt64 :=
  if timeout_ns < 0 then NO_DEADLINE else deadline_after s timeout_ns.toUInt64

def INT64_MAX : Int64 := Int64.maxValue

/-- Time left to a deadline, in `cfiber_ev_wait`'s timeout convention. -/
def remaining_ns (s : Reactor T γ σ κ) (deadline : UInt64) : Int64 :=
  if deadline = NO_DEADLINE then -1
  else
    let now := s.clock
    if deadline ≤ now then 0
    else
      let left := deadline - now
      if left > INT64_MAX.toUInt64 then INT64_MAX else left.toInt64

/-! ## §2. Calls. -/

/-- A blocking call.  The variants without a deadline are the timed ones with `-1`. -/
inductive Op where
  | wait (fd : Int) (direction : UInt32) (timeout_ns : Int64)
  | sleep (ns : UInt64)
  | wait_async (timeout_ns : Int64)
  | read (fd : Int) (n : Nat) (timeout_ns : Int64)
  | write (fd : Int) (buf : List UInt8) (timeout_ns : Int64)
  | accept (lfd : Int)
  | connect (fd : Int)
  deriving DecidableEq

/-- Where a call is. -/
inductive Place where
  /-- At `read`, `write`, `accept4` or `connect`. -/
  | top
  /-- At `remaining_ns`, after the system call would have blocked. -/
  | again
  /-- At `cfiber_ev_wait`. -/
  | ask (timeout_ns : Int64)
  | parked
  /-- At `getsockopt`. -/
  | sockopt
  deriving DecidableEq, Repr

structure Call where
  op : Op
  entry : UInt64
  deadline : UInt64
  off : Nat
  sent : List UInt8
  place : Place
  deriving DecidableEq

/-- What a call returned: a status, a count or descriptor, or `-1` because of the system call or
because of the wait, with the error number. -/
inductive CallRet where
  | status (st : EvStatus)
  | count (n : Nat)
  | failed (e : Errno)
  | wait_failed (st : EvStatus) (e : Errno)
  deriving DecidableEq

/-- The error number of a wait that was not `READY`. -/
def wait_failed (s : Reactor T γ σ κ) : EvStatus → Errno
  | .CANCELLED => .ECANCELED
  | .TIMEOUT => .ETIMEDOUT
  | _ => s.errno  -- left by the registration

/-! ## §3. Turns of the loops. -/

/-- What the loop does with the answer of its system call. -/
inductive Turn where
  | done (n : Nat)
  | retry
  | block
  | fail (e : Errno)
  deriving DecidableEq

/-- A turn of `read_impl`, and of `cfiber_ev_accept`. -/
def read_turn : Except Errno Nat → Turn
  | .ok r => .done r
  | .error .EINTR => .retry
  | .error .EAGAIN => .block
  | .error e => .fail e

/-- A turn of `write_impl` for `n` bytes, of which `off` are written; and the new `off`. -/
def write_turn (n off : Nat) : Except Errno Nat → Turn × Nat
  | .ok 0 => (.fail (.other 5), off)  -- EIO: no progress on a non-empty write
  | .ok w => (if off + w < n then .retry else .done (off + w), off + w)
  | .error .EINTR => (.retry, off)
  | .error .EAGAIN => (.block, off)
  | .error e => (.fail e, off)

def connect_turn : Except Errno Nat → Turn
  | .ok _ => .done 0
  | .error .EINPROGRESS => .block
  | .error e => .fail e

/-! ## §4. The system with its calls. -/

/-- The system, the call each fiber is in, and what the last step made a call return. -/
structure App (T : Target) (γ σ κ : Type) where
  sys : Sys T γ σ κ
  calls : Nat → Option Call
  returned : Option (Nat × Call × CallRet)

inductive Do (δ : Type) where
  /-- Anything but a blocking call. -/
  | sys (a : Action δ)
  | call (op : Op)
  /-- The system call returns. -/
  | transfer (r : Except Errno Nat)
  | look
  | rewait
  | sockopt (e : Option Errno)

def Action.blocks : Action δ → Bool
  | .wait _ _ _ | .sleep _ | .wait_async _ => true
  | _ => false

namespace App

def put (A : App T γ σ κ) (f : Nat) (c : Call) : App T γ σ κ :=
  { A with calls := Function.update A.calls f (some c), returned := none }

def leave (A : App T γ σ κ) (f : Nat) (c : Call) (r : CallRet) : App T γ σ κ :=
  { A with calls := Function.update A.calls f none, returned := some (f, c, r) }

/-- The wait of call `c` is over. -/
def arrive (A : App T γ σ κ) (f : Nat) (c : Call) (st : EvStatus) : App T γ σ κ :=
  match c.op with
  | .wait _ _ _ | .sleep _ | .wait_async _ => A.leave f c (.status st)
  | .connect _ =>
    if st = .READY then A.put f { c with place := .sockopt }
    else A.leave f c (.wait_failed st (wait_failed A.sys.r st))
  | _ =>
    if st = .READY then A.put f { c with place := .top }
    else A.leave f c (.wait_failed st (wait_failed A.sys.r st))

/-- The answer of the system call is dealt with. -/
def settle (A : App T γ σ κ) (f : Nat) (c : Call) : Turn → App T γ σ κ
  | .done n => A.leave f c (.count n)
  | .retry => A.put f { c with place := .top }
  | .block =>
    match c.op with
    | .accept _ | .connect _ => A.put f { c with place := .ask (-1) }
    | _ => A.put f { c with place := .again }
  | .fail e => A.leave f c (.failed e)

section
variable (L : Libc γ) (P : StackPool σ) (K : Kernel κ δ)

/-- The call `c` of fiber `f` goes into the reactor. -/
def enter (A : App T γ σ κ) (f : Nat) (c : Call) (a : Action δ) : Option (App T γ σ κ) :=
  (CFiber.Ev.step L P K A.sys a).map fun S =>
    match S.ret with
    | some (.status st) => { A with sys := S }.arrive f c st
    | _ => { A with sys := S }.put f { c with place := .parked }

/-- Fiber `f` makes a call. -/
def begin_call (A : App T γ σ κ) (f : Nat) (op : Op) : Option (App T γ σ κ) :=
  let c : Call := ⟨op, A.sys.r.clock, NO_DEADLINE, 0, [], .top⟩
  match op with
  | .wait fd direction timeout_ns => A.enter L P K f c (.wait fd direction timeout_ns)
  | .sleep ns => A.enter L P K f c (.sleep ns)
  | .wait_async timeout_ns => A.enter L P K f c (.wait_async timeout_ns)
  | .read _ _ timeout_ns =>
    some (A.put f { c with deadline := deadline_after_opt A.sys.r timeout_ns })
  | .write _ buf timeout_ns =>
    let c := { c with deadline := deadline_after_opt A.sys.r timeout_ns }
    some (if buf = [] then A.leave f c (.count 0) else A.put f c)
  | .accept _ | .connect _ => some (A.put f c)

/-- The system call of call `c` returns. -/
def transfer (A : App T γ σ κ) (f : Nat) (c : Call) (r : Except Errno Nat) : Option (App T γ σ κ) :=
  match c.op with
  | .read _ n _ => if r.toOption.getD 0 ≤ n then some (A.settle f c (read_turn r)) else none
  | .write _ buf _ =>
    -- `write(fd, buf + off, n - off)` takes bytes from there
    if r.toOption.getD 0 ≤ buf.length - c.off then
      let sent := c.sent ++ (buf.drop c.off).take (r.toOption.getD 0)
      some (A.settle f { c with off := (write_turn buf.length c.off r).2, sent := sent }
        (write_turn buf.length c.off r).1)
    else none
  | .accept _ => some (A.settle f c (read_turn r))
  | .connect _ => some (A.settle f c (connect_turn r))
  | _ => none

/-- The descriptor a helper waits on, and the direction. -/
def target : Op → Option (Int × UInt32)
  | .read fd _ _ => some (fd, CFIBER_EV_IN)
  | .write fd _ _ => some (fd, CFIBER_EV_OUT)
  | .accept fd => some (fd, CFIBER_EV_IN)
  | .connect fd => some (fd, CFIBER_EV_OUT)
  | _ => none

/-- A step of the loop thread; a fiber that is dispatched in the middle of a call goes on with it. -/
def loop (A : App T γ σ κ) (a : Action δ) : Option (App T γ σ κ) :=
  (CFiber.Ev.step L P K A.sys a).map fun S =>
    let A' := { A with sys := S, returned := none }
    match S.pc, S.ret with
    | .fiber f _, some (.status st) =>
      match A.calls f with
      | some c => A'.arrive f c st
      | none => A'
    | _, _ => A'

/-- Fiber `f` goes on with its call `c`. -/
def resume_call (A : App T γ σ κ) (f : Nat) (c : Call) (d : Do δ) : Option (App T γ σ κ) :=
  match d, c.place with
  | .transfer r, .top => A.transfer f c r
  | .look, .again => some (A.put f { c with place := .ask (remaining_ns A.sys.r c.deadline) })
  | .rewait, .ask timeout_ns =>
    (target c.op).bind fun (fd, direction) => A.enter L P K f c (.wait fd direction timeout_ns)
  | .sockopt none, .sockopt => some (A.leave f c (.count 0))
  | .sockopt (some e), .sockopt => some (A.leave f c (.failed e))
  | _, _ => none

/-- A step that is no call. -/
def plain (A : App T γ σ κ) (a : Action δ) : Option (App T γ σ κ) :=
  (CFiber.Ev.step L P K A.sys a).map fun S => { A with sys := S, returned := none }

/-- **One step.** -/
def step (A : App T γ σ κ) (d : Do δ) : Option (App T γ σ κ) :=
  match d, A.sys.pc with
  | .sys a, pc =>
    if a.blocks then none
    else if a.foreign then A.plain L P K a
    else match pc with
      | .fiber f _ => if A.calls f = none then A.plain L P K a else none
      | _ => A.loop L P K a
  | .call op, .fiber f _ => if A.calls f = none then A.begin_call L P K f op else none
  | d, .fiber f _ => (A.calls f).bind fun c => A.resume_call L P K f c d
  | _, _ => none

end

/-- Nobody is in a call yet. -/
def boot (r : Reactor T γ σ κ) : App T γ σ κ := ⟨CFiber.Ev.boot r, fun _ => none, none⟩

/-! ## §5. What a step does to the system. -/

@[simp] theorem put_sys (A : App T γ σ κ) (f : Nat) (c : Call) : (A.put f c).sys = A.sys := rfl

@[simp] theorem leave_sys (A : App T γ σ κ) (f : Nat) (c : Call) (r : CallRet) :
    (A.leave f c r).sys = A.sys := rfl

@[simp] theorem arrive_sys (A : App T γ σ κ) (f : Nat) (c : Call) (st : EvStatus) :
    (A.arrive f c st).sys = A.sys := by
  unfold arrive
  split
  all_goals first | rfl | (split_ifs <;> rfl)

@[simp] theorem settle_sys (A : App T γ σ κ) (f : Nat) (c : Call) (t : Turn) :
    (A.settle f c t).sys = A.sys := by
  unfold settle
  split
  all_goals first | rfl | (split <;> rfl)

section
variable {L : Libc γ} {P : StackPool σ} {K : Kernel κ δ} {A A' : App T γ σ κ} {f : Nat} {c : Call}

theorem enter_sys {a : Action δ} (h : A.enter L P K f c a = some A') :
    CFiber.Ev.step L P K A.sys a = some A'.sys := by
  obtain ⟨S, hS, rfl⟩ := Option.map_eq_some_iff.mp h
  rw [hS]
  cases hret : S.ret with
  | none => rfl
  | some r => cases r <;> simp

theorem transfer_sys {r : Except Errno Nat} (h : A.transfer f c r = some A') : A'.sys = A.sys := by
  unfold transfer at h
  split at h <;> (try split_ifs at h) <;>
    first
      | (obtain rfl := Option.some.inj h; simp)
      | exact absurd h (by simp)

theorem loop_sys {a : Action δ} (h : A.loop L P K a = some A') :
    CFiber.Ev.step L P K A.sys a = some A'.sys := by
  obtain ⟨S, hS, rfl⟩ := Option.map_eq_some_iff.mp h
  rw [hS]
  dsimp only
  split
  · split <;> simp
  · rfl

/-- The system stands still, or takes a step: the one asked for, or a blocking call. -/
theorem step_sys {d : Do δ} (h : A.step L P K d = some A') :
    A'.sys = A.sys ∨ ∃ a, CFiber.Ev.step L P K A.sys a = some A'.sys ∧
      (d = .sys a ∨ a.blocks = true) := by
  unfold step at h
  split at h
  · rename_i a
    right
    refine ⟨a, ?_, Or.inl rfl⟩
    split_ifs at h
    · obtain ⟨S, hS, rfl⟩ := Option.map_eq_some_iff.mp h
      exact hS
    · split at h
      · split_ifs at h
        obtain ⟨S, hS, rfl⟩ := Option.map_eq_some_iff.mp h
        exact hS
      · exact loop_sys h
  · rename_i op f e hpc
    split_ifs at h
    unfold begin_call at h
    cases op with
    | wait fd dir t => exact Or.inr ⟨_, enter_sys h, Or.inr rfl⟩
    | sleep ns => exact Or.inr ⟨_, enter_sys h, Or.inr rfl⟩
    | wait_async t => exact Or.inr ⟨_, enter_sys h, Or.inr rfl⟩
    | write fd buf t =>
        obtain rfl := Option.some.inj h
        left
        dsimp only
        split_ifs <;> rfl
    | _ => obtain rfl := Option.some.inj h; exact Or.inl rfl
  · obtain ⟨c, -, h⟩ := Option.bind_eq_some_iff.mp h
    unfold resume_call at h
    split at h
    · exact Or.inl (transfer_sys h)
    · obtain rfl := Option.some.inj h; exact Or.inl rfl
    · obtain ⟨⟨fd, dir⟩, -, h⟩ := Option.bind_eq_some_iff.mp h
      exact Or.inr ⟨_, enter_sys h, Or.inr rfl⟩
    · obtain rfl := Option.some.inj h; exact Or.inl rfl
    · obtain rfl := Option.some.inj h; exact Or.inl rfl
    · exact absurd h (by simp)
  · exact absurd h (by simp)

end

end App

end CFiber.Ev
