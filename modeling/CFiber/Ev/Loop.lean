/-
  CFiber.Ev.Loop — the reactor as a system: `cfiber_reactor_run`, its fibers and the other threads.

  A state is the reactor with the place the loop thread has reached (`Pc`) and the commands in the
  ring.  Control is with the host, with the loop, or with one fiber:

      host ─run─▶ head ─▶ round ─▶ fiber ─▶ back ─▶ round …  ─▶ check ─▶ poll ─▶ events ⇄ drain
        ▲          ▲                                              │        │         │
        └──────────┼──────────────────────────────────────────────┴────────┘         ▼
                   └────────────────────────────────────────────────────────────── timers

  What the running fiber does next, what the kernel answers and what other threads post is the
  choice of the `Action`; the rest is the loop's own code, taken one statement at a time by `turn`.

  `ret` is what the last call handed back to its caller.  `alive` is a history variable: the fibers
  that were spawned and not yet recycled, newest first.  No step reads either.
-/
import CFiber.Ev.Spawn

namespace CFiber.Ev

open CFiber.Base CFiber.Memory

variable {T : Target} {γ σ κ δ : Type}

/-! ## §1. States and actions. -/

/-- What a call returned. -/
inductive Ret where
  | status (st : EvStatus)
  | spawned (h : Handle)
  | refused
  | closed (ok : Bool)
  | self (h : Handle)
  | ran (ok : Bool)
  deriving DecidableEq, Repr

/-- Where the loop thread is. -/
inductive Pc where
  /-- Outside `cfiber_reactor_run`. -/
  | host
  /-- At `while (s->active > 0)`. -/
  | head
  /-- At `while (s->ready_head)`. -/
  | round (round_end : Option Nat)
  /-- In fiber `f`. -/
  | fiber (f : Nat) (round_end : Option Nat)
  /-- After `enter_fiber(s, f)`. -/
  | back (f : Nat) (round_end : Option Nat)
  /-- After the round. -/
  | check
  /-- At `epoll_wait`. -/
  | poll (timeout_ms : Int)
  /-- In the `for` over the events; those left. -/
  | events (evs : List Event)
  /-- In `drain_cmds`, called for the eventfd's event; the events left after it. -/
  | drain (evs : List Event)
  /-- In `fire_expired_timers`. -/
  | timers (now : UInt64)
  deriving DecidableEq, Repr

structure Sys (T : Target) (γ σ κ : Type) where
  r : Reactor T γ σ κ
  pc : Pc
  cmds : List Cmd
  ret : Option Ret
  alive : List Nat

inductive Action (δ : Type) where
  /-- `cfiber_reactor_spawn` by the host, `cfiber_ev_spawn` by a fiber. -/
  | spawn
  | run
  /-- The loop's next statement. -/
  | turn
  | wait (fd : Int) (direction : UInt32) (timeout_ns : Int64)
  | sleep (ns : UInt64)
  | wait_async (timeout_ns : Int64)
  | yield
  | close (fd : Int)
  | wake (h : Handle)
  | cancel (h : Handle)
  | self
  /-- The running fiber's entry function returns. -/
  | finish
  /-- `epoll_wait` returns. -/
  | poll (d : δ)
  /-- `ring_dequeue` finds no command it may take. -/
  | drained
  /-- Another thread's `post_cmd`. -/
  | post (c : Cmd)
  /-- Something else happens in the process or in the kernel. -/
  | other (d : δ)
  | tick (dt : UInt64)

/-- `evs` has room for this many. -/
def MAX_EVENTS : Nat := 64

/-! ## §2. Steps. -/

section
variable (L : Libc γ) (P : StackPool σ) (K : Kernel κ δ)

/-- The loop's next statement. -/
def turn (S : Sys T γ σ κ) : Option (Sys T γ σ κ) :=
  match S.pc with
  | .head =>
    -- one round: the fibers ready now
    if S.r.active > 0 then some { S with pc := .round S.r.ready_tail }
    else some { S with pc := .host, ret := some (.ran true) }
  | .round round_end =>
    match dispatch S.r with
    | none => some { S with pc := .check }
    | some (f, st, r) => some { S with r := r, pc := .fiber f round_end, ret := st.map .status }
  | .back f round_end =>
    -- `f` yielded, parked or completed
    some { S with
      r := reap L P K S.r
      alive := match S.r.zombie with
        | some z => S.alive.erase z
        | none => S.alive
      pc := if some f = round_end then .check else .round round_end }
  | .check =>
    if S.r.active = 0 then some { S with pc := .host, ret := some (.ran true) }
    else
      -- zero timeout while there is runnable work
      some { S with pc := .poll (if S.r.ready_head.isSome then 0 else (next_timeout_ms S.r).toInt) }
  | .events [] => some { S with pc := .timers S.r.clock }
  | .events (e :: evs) =>
    match e.data with
    | none => some { S with pc := .drain evs }  -- the eventfd control channel
    | some w => some { S with r := ready_event S.r w, pc := .events evs }
  | .drain _ =>
    match S.cmds with
    | [] => none
    | c :: cmds => some { S with r := apply_cmd K S.r c, cmds := cmds }
  | .timers now =>
    if expired S.r now then some { S with r := fire_timer K S.r }
    else some { S with pc := .head }
  | .host | .fiber _ _ | .poll _ => none

/-- `epoll_wait` returned: events, an interruption, or a failure that ends the run. -/
def polled (S : Sys T γ σ κ) : Except Errno (List Event) × κ → Option (Sys T γ σ κ)
  | (.ok evs, k) =>
    if evs.length ≤ MAX_EVENTS then some { S with r := { S.r with epoll := k }, pc := .events evs }
    else none
  | (.error e, k) =>
    let S := { S with r := { S.r with epoll := k, errno := e } }
    if e = .EINTR then some { S with pc := .head }
    else some { S with pc := .host, ret := some (.ran false) }  -- live fibers stay parked or ready

/-- A blocking call of fiber `f` came back at once or left to the loop. -/
def called (S : Sys T γ σ κ) (f : Nat) (round_end : Option Nat) :
    Option EvStatus × Reactor T γ σ κ → Sys T γ σ κ
  | (some st, r) => { S with r := r, ret := some (.status st) }
  | (none, r) => { S with r := r, ret := none, pc := .back f round_end }

def spawned (S : Sys T γ σ κ) : Option Handle × Reactor T γ σ κ → Sys T γ σ κ
  | (none, r) => { S with r := r, ret := some .refused }
  | (some h, r) => { S with r := r, ret := some (.spawned h), alive := h.f.toList ++ S.alive }

/-- What fiber `f` does next. -/
def act (S : Sys T γ σ κ) (f : Nat) (round_end : Option Nat) : Action δ → Option (Sys T γ σ κ)
  | .spawn => some (spawned S (spawn_locked L P S.r))
  | .run =>
    -- re-entered from one of its own fibers
    some { S with r := { S.r with errno := .EBUSY }, ret := some (.ran false) }
  | .wait fd direction timeout_ns =>
    some (called S f round_end (cfiber_ev_wait L K S.r fd direction timeout_ns))
  | .sleep ns => some (called S f round_end (cfiber_ev_sleep L S.r ns))
  | .wait_async timeout_ns =>
    some (called S f round_end (cfiber_ev_wait_async L S.r timeout_ns))
  | .yield => some { S with r := cfiber_ev_yield S.r, ret := none, pc := .back f round_end }
  | .close fd =>
    some { S with
      r := (cfiber_ev_close K S.r fd).2
      ret := some (.closed (cfiber_ev_close K S.r fd).1) }
  | .wake h => some { S with r := apply_cmd K S.r ⟨.CMD_WAKE, h.f, h.gen⟩, ret := none }
  | .cancel h => some { S with r := apply_cmd K S.r ⟨.CMD_CANCEL, h.f, h.gen⟩, ret := none }
  | .self => some { S with ret := some (.self (cfiber_ev_self S.r)) }
  | .finish => some { S with r := reactor_return_hook S.r, ret := none, pc := .back f round_end }
  | _ => none

/-- **One step of the system**; `none` where the action is not possible. -/
def step (S : Sys T γ σ κ) : Action δ → Option (Sys T γ σ κ)
  | .post c => some { S with cmds := S.cmds ++ [c] }
  | .other d => (K.other d S.r.epoll).map fun k => { S with r := { S.r with epoll := k } }
  | .tick dt => some { S with r := { S.r with clock := S.r.clock + dt } }
  | .turn => turn L P K S
  | .drained =>
    match S.pc with
    | .drain evs => some { S with pc := .events evs }
    | _ => none
  | .poll d =>
    match S.pc with
    | .poll timeout_ms => (K.epoll_wait d timeout_ms S.r.epoll).bind (polled S)
    | _ => none
  | a =>
    match S.pc with
    | .fiber f round_end => act L P K S f round_end a
    | .host =>
      match a with
      | .spawn => some (spawned S (spawn_locked L P S.r))
      | .run => some { S with pc := .head, ret := none }
      | _ => none
    | _ => none

end

/-- The system around a fresh reactor. -/
def boot (r : Reactor T γ σ κ) : Sys T γ σ κ where
  r := r
  pc := .host
  cmds := []
  ret := none
  alive := []

/-! ## §3. What a step brings. -/

/-- The command a step applies. -/
def command (S : Sys T γ σ κ) (a : Action δ) : Option Cmd :=
  match S.pc, a with
  | .fiber _ _, .wake h => some ⟨.CMD_WAKE, h.f, h.gen⟩
  | .fiber _ _, .cancel h => some ⟨.CMD_CANCEL, h.f, h.gen⟩
  | .drain _, .turn => S.cmds.head?
  | _, _ => none

/-- The fiber a step wakes with `cfiber_ev_wake` or `cfiber_reactor_wake`. -/
def waked (S : Sys T γ σ κ) (a : Action δ) : Option Nat :=
  match command S a with
  | some c => if c.kind = .CMD_WAKE then addressee S.r c else none
  | none => none

/-- What a command stands for: a cancel, or a wake for a fiber in an async wait. -/
def commanded (S : Sys T γ σ κ) (a : Action δ) : Option (Nat × EvStatus) :=
  match command S a with
  | none => none
  | some c => (addressee S.r c).bind fun f =>
    match c.kind with
    | .CMD_CANCEL => some (f, .CANCELLED)
    | .CMD_WAKE => if S.r.mem.park f = .PARK_ASYNC then some (f, .READY) else none

/-- **The wake source** a step brings, if it brings one: the fiber it is for and the status it
stands for.  Readiness, the deadline, a close of the descriptor the fiber waits on, or a command. -/
def source (S : Sys T γ σ κ) (a : Action δ) : Option (Nat × EvStatus) :=
  match S.pc, a with
  | .events (e :: _), .turn => e.data.map fun w => (w, .READY)
  | .timers now, .turn => if expired S.r now then some (S.r.heap 0, .TIMEOUT) else none
  | .fiber _ _, .close fd =>
    ((fd_owner_get S.r fd).filter fun f => S.r.mem.wait_fd f == fd).map fun f => (f, .CANCELLED)
  | _, _ => commanded S a

/-- The events of the current batch that the loop has not looked at. -/
def pending : Pc → List Event
  | .events evs | .drain evs => evs
  | _ => []

/-! ## §4. Where control goes. -/

/-- What happens outside the loop thread. -/
def Action.foreign : Action δ → Bool
  | .post _ | .other _ | .tick _ => true
  | _ => false

/-- Where the loop thread's own steps lead. -/
def Flow : (before after : Pc) → Prop
  | .host, p => p = .host ∨ p = .head
  | .head, p => p = .host ∨ ∃ round_end, p = .round round_end
  | .round round_end, p => p = .check ∨ ∃ f, p = .fiber f round_end
  | .fiber f round_end, p => p = .fiber f round_end ∨ p = .back f round_end
  | .back f round_end, p => p = if some f = round_end then .check else .round round_end
  | .check, p => p = .host ∨ ∃ t, p = .poll t
  | .poll _, p => p = .head ∨ p = .host ∨ ∃ evs, p = .events evs
  | .events evs, p => (evs = [] ∧ ∃ now, p = .timers now) ∨
      ∃ e evs', evs = e :: evs' ∧ (p = .events evs' ∨ p = .drain evs')
  | .drain evs, p => p = .drain evs ∨ p = .events evs
  | .timers now, p => p = .timers now ∨ p = .head

section
variable {L : Libc γ} {P : StackPool σ} {K : Kernel κ δ} {S S' : Sys T γ σ κ} {a : Action δ}

theorem spawned_pc (S : Sys T γ σ κ) (x : Option Handle × Reactor T γ σ κ) :
    (spawned S x).pc = S.pc := by
  rcases x with ⟨_ | hd, r⟩ <;> rfl

theorem foreign_pc (ha : a.foreign = true) (h : step L P K S a = some S') :
    S'.pc = S.pc ∧ S'.r.ready_head = S.r.ready_head := by
  cases a with
  | post c => obtain rfl := Option.some.inj h; exact ⟨rfl, rfl⟩
  | tick dt => obtain rfl := Option.some.inj h; exact ⟨rfl, rfl⟩
  | other d =>
      obtain ⟨k, -, rfl⟩ := Option.map_eq_some_iff.mp h
      exact ⟨rfl, rfl⟩
  | _ => simp [Action.foreign] at ha

theorem turn_flow (h : turn L P K S = some S') : Flow S.pc S'.pc := by
  unfold turn at h
  cases hpc : S.pc with
  | head =>
      simp only [hpc] at h
      split_ifs at h <;> obtain rfl := Option.some.inj h
      · exact Or.inr ⟨_, rfl⟩
      · exact Or.inl rfl
  | round e =>
      simp only [hpc] at h
      rcases hd : dispatch S.r with _ | ⟨f, st, r⟩ <;> rw [hd] at h <;> obtain rfl := Option.some.inj h
      · exact Or.inl rfl
      · exact Or.inr ⟨f, rfl⟩
  | back f e => simp only [hpc] at h; obtain rfl := Option.some.inj h; rfl
  | check =>
      simp only [hpc] at h
      by_cases hact : S.r.active = 0
      · rw [if_pos hact] at h; obtain rfl := Option.some.inj h; exact Or.inl rfl
      · rw [if_neg hact] at h; obtain rfl := Option.some.inj h; exact Or.inr ⟨_, rfl⟩
  | events evs =>
      cases evs with
      | nil => simp only [hpc] at h; obtain rfl := Option.some.inj h; exact Or.inl ⟨rfl, _, rfl⟩
      | cons e evs =>
          simp only [hpc] at h
          cases hd : e.data <;> rw [hd] at h <;> obtain rfl := Option.some.inj h
          · exact Or.inr ⟨e, evs, rfl, Or.inr rfl⟩
          · exact Or.inr ⟨e, evs, rfl, Or.inl rfl⟩
  | drain evs =>
      simp only [hpc] at h
      cases hc : S.cmds <;> rw [hc] at h
      · exact absurd h (by simp)
      · obtain rfl := Option.some.inj h; exact Or.inl rfl
  | timers now =>
      simp only [hpc] at h
      split_ifs at h <;> obtain rfl := Option.some.inj h
      · exact Or.inl rfl
      · exact Or.inr rfl
  | _ => simp [hpc] at h

theorem act_flow {f : Nat} {round_end : Option Nat} (hpc : S.pc = .fiber f round_end)
    (h : act L P K S f round_end a = some S') : Flow S.pc S'.pc := by
  have hcalled : ∀ x, Flow S.pc (called S f round_end x).pc := by
    rw [hpc]
    rintro ⟨_ | st, r⟩
    · exact Or.inr rfl
    · exact Or.inl hpc
  have hstay : Flow S.pc S.pc := by rw [hpc]; exact Or.inl rfl
  cases a with
  | spawn => obtain rfl := Option.some.inj h; rw [spawned_pc]; exact hstay
  | wait fd dir t => obtain rfl := Option.some.inj h; exact hcalled _
  | sleep ns => obtain rfl := Option.some.inj h; exact hcalled _
  | wait_async t => obtain rfl := Option.some.inj h; exact hcalled _
  | yield => obtain rfl := Option.some.inj h; rw [hpc]; exact Or.inr rfl
  | finish => obtain rfl := Option.some.inj h; rw [hpc]; exact Or.inr rfl
  | run => obtain rfl := Option.some.inj h; exact hstay
  | close fd => obtain rfl := Option.some.inj h; exact hstay
  | wake hd => obtain rfl := Option.some.inj h; exact hstay
  | cancel hd => obtain rfl := Option.some.inj h; exact hstay
  | self => obtain rfl := Option.some.inj h; exact hstay
  | _ => simp [act] at h

/-- **The flow of control.** -/
theorem step_flow (ha : a.foreign = false) (h : step L P K S a = some S') : Flow S.pc S'.pc := by
  cases hpc : S.pc with
  | fiber f e =>
      rw [← hpc]
      cases a with
      | turn => exact turn_flow h
      | post c => simp [Action.foreign] at ha
      | tick dt => simp [Action.foreign] at ha
      | other d => simp [Action.foreign] at ha
      | drained => simp [step, hpc] at h
      | poll d => simp [step, hpc] at h
      | _ => simp only [step, hpc] at h; exact act_flow hpc h
  | poll t =>
      cases a with
      | turn => rw [← hpc]; exact turn_flow h
      | poll d =>
          simp only [step, hpc] at h
          obtain ⟨⟨res, k⟩, -, hx⟩ := Option.bind_eq_some_iff.mp h
          cases res <;> simp only [polled] at hx <;> split_ifs at hx <;> obtain rfl := Option.some.inj hx
          · exact Or.inl rfl
          · exact Or.inr (Or.inl rfl)
          · exact Or.inr (Or.inr ⟨_, rfl⟩)
      | _ => simp_all [step, Action.foreign]
  | drain evs =>
      cases a with
      | turn => rw [← hpc]; exact turn_flow h
      | drained => simp only [step, hpc] at h; obtain rfl := Option.some.inj h; exact Or.inr rfl
      | _ => simp_all [step, Action.foreign]
  | host =>
      cases a with
      | turn => rw [← hpc]; exact turn_flow h
      | spawn =>
          simp only [step, hpc] at h
          obtain rfl := Option.some.inj h
          rw [spawned_pc]
          exact Or.inl hpc
      | run => simp only [step, hpc] at h; obtain rfl := Option.some.inj h; exact Or.inr rfl
      | _ => simp_all [step, Action.foreign]
  | _ =>
      cases a with
      | turn => rw [← hpc]; exact turn_flow h
      | _ => simp_all [step, Action.foreign]

/-- Where the only way on is the loop's next statement. -/
def Pc.own : Pc → Bool
  | .head | .round _ | .back _ _ | .check | .events _ | .timers _ => true
  | .host | .fiber _ _ | .poll _ | .drain _ => false

theorem turn_of_step (hpc : S.pc.own = true) (ha : a.foreign = false)
    (h : step L P K S a = some S') : a = .turn ∧ turn L P K S = some S' := by
  cases a with
  | turn => exact ⟨rfl, h⟩
  | post c => simp [Action.foreign] at ha
  | tick dt => simp [Action.foreign] at ha
  | other d => simp [Action.foreign] at ha
  | _ => cases hp : S.pc <;> simp_all [step, Pc.own]

end

end CFiber.Ev
