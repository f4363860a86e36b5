/-
  CFiber.Sched.StackPeak — the scheduler with the stack sanitizer compiled in.

  The functions that are instrumented are given again, with the bytes of the stacks and the
  `stack_peak` beside the scheduler: a stack is painted when it is allocated, and measured and
  checked when its task is freed.  Apart from the trap on an overflow they do to the scheduler what
  the plain ones do (`watch_cases`), so every invariant of the plain system holds here as well.

  The fiber that has control may store to its own block.  `done` is a history variable: the fibers
  that returned, each with the measure of its stack at that moment.

    • `cfiber_scheduler_spawn_bytes` — the stack of a new fiber is as `cfiber_init` leaves it;
    • `Watched.whole`   — a fiber's descriptor is that of its block;
    • `stack_watermark` — what is measured, and that `stack_peak` is the greatest of the measures.
-/
import CFiber.Context.Init
import CFiber.Sched.Geometry
import CFiber.Stacks.Watermark

namespace CFiber.Sched.Sanitized

open CFiber.Base CFiber.Memory CFiber.Stacks
open CFiber.Context (Mem Cpu)

variable {T : Target} {γ : Type}

/-! ## §1. The instrumented functions. -/

/-- `sched`, the memory its stacks lie in, and its `stack_peak`. -/
structure Instrumented (T : Target) (γ : Type) where
  s : Scheduler T γ
  bytes : Mem
  stack_peak : Nat

/-- `none` is the `-1` return. -/
def cfiber_fixed_stack_alloc (B : Backing γ) (ms : Multislab T) (c : γ) (m : Mem) :
    Option Stack × Multislab T × γ × Mem :=
  match cfiber_multislab_alloc B ms c with
  | (none, ms, c) => (none, ms, c, m)
  | (some mem, ms, c) =>
    let stack := fixed_stack T mem ms.block_size
    (some stack, ms, c, cfiber_stack_debug_init T m stack)

def cfiber_fixed_stack_release (B : Backing γ) (stack : Stack) (ms : Multislab T) (c : γ)
    (m : Mem) : Bool × Multislab T × γ :=
  let ok := !cfiber_stack_debug_overflowed T m stack
  (ok, cfiber_multislab_release B ms (stack.mem_base.getD 0) c)

/-- `none` is the trap on an overflowed stack. -/
def task_free (B : Backing γ) (x : Instrumented T γ) (t : Nat) : Option (Instrumented T γ) :=
  let used := cfiber_stack_debug_used_bytes T x.bytes (x.s.mem.stack t)
  let x := if used > x.stack_peak then { x with stack_peak := used } else x
  match cfiber_fixed_stack_release B (x.s.mem.stack t) x.s.stack_alloc x.s.mem_ctx x.bytes with
  | (false, _, _) => none
  | (true, ms, c) =>
    let s := { x.s with stack_alloc := ms, mem_ctx := c }
    let (ms, c) := cfiber_multislab_release B s.task_alloc t s.mem_ctx
    some { x with s := { s with task_alloc := ms, mem_ctx := c } }

/-- `if (sched->zombie)`: the last fiber to complete is freed. -/
def free_zombie (B : Backing γ) (x : Instrumented T γ) : Option (Instrumented T γ) :=
  match x.s.zombie with
  | none => some x
  | some t => (task_free B x t).map fun x => { x with s := { x.s with zombie := none } }

/-- `prologue` is the address of `cfiber_prologue`. -/
def cfiber_scheduler_spawn (B : Backing γ) (cpu : Cpu) (prologue : Nat) (x : Instrumented T γ)
    (func : Nat) : Bool × Instrumented T γ :=
  match cfiber_multislab_alloc B x.s.task_alloc x.s.mem_ctx with
  | (none, ms, c) => (false, { x with s := { x.s with task_alloc := ms, mem_ctx := c } })
  | (some task, ms, c) =>
    let s := { x.s with task_alloc := ms, mem_ctx := c }
    match cfiber_fixed_stack_alloc B s.stack_alloc s.mem_ctx x.bytes with
    | (none, ms, c, _) =>
      let s := { s with stack_alloc := ms, mem_ctx := c }
      let (ms, c) := cfiber_multislab_release B s.task_alloc task s.mem_ctx
      (false, { x with s := { s with task_alloc := ms, mem_ctx := c } })
    | (some stack, ms, c, m) =>
      (true, { x with
        s := task_start { s with stack_alloc := ms, mem_ctx := c } task stack func
        bytes := cpu.init_stack prologue stack.usable_base s.stack_size m })

/-- The measure of the stack of fiber `t`. -/
def measure (x : Instrumented T γ) (t : Nat) : Nat :=
  cfiber_stack_debug_used_bytes T x.bytes (x.s.mem.stack t)

def cfiber_scheduler_stack_peak (x : Instrumented T γ) : Nat := x.stack_peak

/-! ## §2. The system. -/

structure Watched (T : Target) (γ : Type) where
  sys : Sys T γ
  bytes : Mem
  stack_peak : Nat
  done : List (Nat × Nat)

inductive Do where
  | sched (a : Action)
  /-- The running fiber stores a byte in its block. -/
  | store (x : Nat) (b : Fin 256)
  deriving DecidableEq, Repr

def Watched.sched (W : Watched T γ) : Instrumented T γ := ⟨W.sys.s, W.bytes, W.stack_peak⟩

/-- The scheduler has become `x`, and control is at `pc`. -/
def Watched.put (W : Watched T γ) (x : Instrumented T γ) (pc : Pc) (es : List Event) : Watched T γ :=
  { W with
    sys := { W.sys with s := x.s, pc := pc, events := W.sys.events ++ es }
    bytes := x.bytes
    stack_peak := x.stack_peak }

def spawn (B : Backing γ) (cpu : Cpu) (prologue : Nat) (W : Watched T γ) : Watched T γ :=
  match cfiber_scheduler_spawn B cpu prologue W.sched W.sys.spawned with
  | (false, x) => W.put x W.sys.pc [.spawn W.sys.running none]
  | (true, x) =>
    let W' := W.put x W.sys.pc [.spawn W.sys.running (some W.sys.spawned)]
    { W' with sys := { W'.sys with spawned := W.sys.spawned + 1 } }

def turn (B : Backing γ) (W : Watched T γ) : Watched T γ :=
  match free_zombie B W.sched with
  | none => { W with sys := { W.sys with pc := .trap } }
  | some x =>
    if W.sys.s.active_count > 0 then
      match dequeue_ready x.s with
      | (none, s) => W.put { x with s := s } .trap (freed W.sys.s)
      | (some t, s) => W.put { x with s := { s with current := some t } } (.fiber t) (freed W.sys.s)
    else W.put x .host (freed W.sys.s)

/-- **One step of the system**; `none` where the action is not possible. -/
def step (B : Backing γ) (cpu : Cpu) (prologue : Nat) (W : Watched T γ) :
    Do → Option (Watched T γ)
  | .sched .spawn =>
    match W.sys.pc with
    | .host | .fiber _ => some (spawn B cpu prologue W)
    | .loop | .trap => none
  | .sched .turn =>
    match W.sys.pc with
    | .loop => some (turn B W)
    | _ => none
  | .sched .finish =>
    match W.sys.pc with
    | .fiber t =>
      (CFiber.Sched.step B W.sys .finish).map fun sys =>
        { W with sys := sys, done := W.done ++ [(W.sys.s.mem.entry t, measure W.sched t)] }
    | _ => none
  | .sched a => (CFiber.Sched.step B W.sys a).map fun sys => { W with sys := sys }
  | .store x b =>
    match W.sys.pc with
    | .fiber t =>
      if stack_block W.sys.s.mem t ≤ x ∧ x < (W.sys.s.mem.stack t).stack_top then
        some { W with bytes := Function.update W.bytes x b }
      else none
    | _ => none

/-- The system around a scheduler that was just initialised, over any bytes. -/
def boot (s : Scheduler T γ) (bytes : Mem) : Watched T γ := ⟨CFiber.Sched.boot s, bytes, 0, []⟩

/-! ## §3. The instrumented functions do what the plain ones do. -/

section
variable {B : Backing γ} {cpu : Cpu} {prologue : Nat} {x : Instrumented T γ}

/-- **A task is freed** as without the sanitizer, unless its stack has overflowed. -/
theorem task_free_eq (t : Nat) : task_free B x t =
    if cfiber_stack_debug_overflowed T x.bytes (x.s.mem.stack t) then none
    else (CFiber.Sched.task_free B x.s t).map fun s =>
      ⟨s, x.bytes, max x.stack_peak (measure x t)⟩ := by
  have hpeak : (if measure x t > x.stack_peak then { x with stack_peak := measure x t } else x) =
      ⟨x.s, x.bytes, max x.stack_peak (measure x t)⟩ := by
    split_ifs with hgt
    · rw [Nat.max_eq_right (Nat.le_of_lt hgt)]
    · rw [Nat.max_eq_left (Nat.le_of_not_lt hgt)]
  unfold measure at hpeak ⊢
  unfold task_free CFiber.Sched.task_free cfiber_fixed_stack_release
    CFiber.Sched.cfiber_fixed_stack_release
  dsimp only
  rw [hpeak]
  cases cfiber_stack_debug_overflowed T x.bytes (x.s.mem.stack t) with
  | true => rfl
  | false => rfl

/-- **The zombie is freed** likewise. -/
theorem free_zombie_eq : free_zombie B x =
    match x.s.zombie with
    | none => some x
    | some t =>
      if cfiber_stack_debug_overflowed T x.bytes (x.s.mem.stack t) then none
      else (CFiber.Sched.free_zombie B x.s).map fun s =>
        ⟨s, x.bytes, max x.stack_peak (measure x t)⟩ := by
  unfold free_zombie CFiber.Sched.free_zombie
  cases x.s.zombie with
  | none => rfl
  | some t =>
      dsimp only
      rw [task_free_eq]
      split_ifs
      · rfl
      · rw [Option.map_map, Option.map_map]
        rfl

/-- **A spawn** paints the new fiber's stack besides. -/
theorem cfiber_scheduler_spawn_eq (B : Backing γ) (cpu : Cpu) (prologue : Nat)
    (x : Instrumented T γ) (func : Nat) :
    (cfiber_scheduler_spawn B cpu prologue x func).1 =
        (CFiber.Sched.cfiber_scheduler_spawn B x.s func).1 ∧
      (cfiber_scheduler_spawn B cpu prologue x func).2.s =
        (CFiber.Sched.cfiber_scheduler_spawn B x.s func).2 ∧
      (cfiber_scheduler_spawn B cpu prologue x func).2.stack_peak = x.stack_peak := by
  unfold cfiber_scheduler_spawn CFiber.Sched.cfiber_scheduler_spawn cfiber_fixed_stack_alloc
    CFiber.Sched.cfiber_fixed_stack_alloc
  rcases cfiber_multislab_alloc B x.s.task_alloc x.s.mem_ctx with ⟨_ | task, ms, c⟩
  · exact ⟨rfl, rfl, rfl⟩
  · dsimp only
    rcases cfiber_multislab_alloc B x.s.stack_alloc c with ⟨_ | mem, ms', c'⟩
    · exact ⟨rfl, rfl, rfl⟩
    · exact ⟨rfl, rfl, rfl⟩

/-- The task that a spawn starts is the last of the queue. -/
theorem task_start_last (s : Scheduler T γ) (task : Nat) (stack : Stack) (func : Nat) :
    (task_start s task stack func).ready_tail = some task ∧
      (task_start s task stack func).mem.stack task = stack ∧
      (task_start s task stack func).mem.fiber_stack task = stack.usable_base ∧
      (task_start s task stack func).mem.fiber_stack_size task = s.stack_size := by
  simp only [task_start, enqueue_ready_eq, Function.update_self, and_self]

/-- **To the bytes of the stacks a spawn does what `cfiber_init` does** to the painted stack of the
new fiber, wherever the fiber's context lies. -/
theorem cfiber_scheduler_spawn_bytes {func : Nat} {x' : Instrumented T γ}
    (h : cfiber_scheduler_spawn B cpu prologue x func = (true, x'))
    (hprologue : prologue < cpu.port.isa.space) :
    ∃ t, x'.s.ready_tail = some t ∧ ∀ c : Context.InitCall cpu.port,
      c.stack = x'.s.mem.fiber_stack t → c.stack_size = x'.s.mem.fiber_stack_size t →
      c.creator.mem = cfiber_stack_debug_init T x.bytes (x'.s.mem.stack t) →
      ∀ y, ¬ Context.Within c.ctx cpu.port.size y → x'.bytes y = cpu.cfiber_init c prologue y := by
  unfold cfiber_scheduler_spawn cfiber_fixed_stack_alloc at h
  rcases heq : cfiber_multislab_alloc B x.s.task_alloc x.s.mem_ctx with ⟨_ | task, ms, c⟩
  · simp [heq] at h
  · rw [heq] at h
    dsimp only at h
    rcases heq' : cfiber_multislab_alloc B x.s.stack_alloc c with ⟨_ | mem, ms', c'⟩
    · simp [heq'] at h
    · rw [heq'] at h
      dsimp only at h
      generalize fixed_stack T mem ms'.block_size = stack at h
      obtain ⟨htail, hstack, hbase, hsize⟩ := task_start_last
        { x.s with task_alloc := ms, stack_alloc := ms', mem_ctx := c' } task stack func
      injection h with _ h
      subst h
      refine ⟨task, htail, fun c hc hc' hmem y hy => ?_⟩
      rw [cpu.cfiber_init_stack c hprologue hy, hc, hc', hmem, hstack, hbase, hsize]

end

/-! ## §4. What a step does. -/

section
variable {B : Backing γ} {cpu : Cpu} {prologue : Nat} {W W' : Watched T γ}

/-- The measure that is still to be counted. -/
def pending (W : Watched T γ) : Nat :=
  match W.sys.s.zombie with
  | none => 0
  | some z => measure W.sched z

/-- **A spawn** is one of the plain system, and the zombie stays unmeasured. -/
theorem spawn_sys (B : Backing γ) (cpu : Cpu) (prologue : Nat) (W : Watched T γ) :
    (spawn B cpu prologue W).sys = CFiber.Sched.spawn B W.sys ∧
    (spawn B cpu prologue W).stack_peak = W.stack_peak ∧
    (spawn B cpu prologue W).done = W.done := by
  obtain ⟨hok, hs, hpeak⟩ := cfiber_scheduler_spawn_eq B cpu prologue W.sched W.sys.spawned
  unfold spawn CFiber.Sched.spawn
  rcases heq : cfiber_scheduler_spawn B cpu prologue W.sched W.sys.spawned with ⟨ok, x⟩
  rcases heq' : CFiber.Sched.cfiber_scheduler_spawn B W.sched.s W.sys.spawned with ⟨ok', s⟩
  rw [heq, heq'] at hok hs
  rw [heq] at hpeak
  obtain rfl : ok = ok' := hok
  obtain rfl : x.s = s := hs
  rw [show CFiber.Sched.cfiber_scheduler_spawn B W.sys.s W.sys.spawned = (ok, x.s) from heq']
  cases ok with
  | false => exact ⟨rfl, hpeak, rfl⟩
  | true => exact ⟨rfl, hpeak, rfl⟩

/-- **A turn** traps on an overflow, or is one of the plain system and counts the zombie in. -/
theorem turn_sys (hfree : ∃ s, CFiber.Sched.free_zombie B W.sys.s = some s) :
    turn B W = { W with sys := { W.sys with pc := .trap } } ∨
    ((turn B W).sys = CFiber.Sched.turn B W.sys ∧ (turn B W).bytes = W.bytes ∧
      (turn B W).stack_peak = max W.stack_peak (pending W) ∧ (turn B W).done = W.done) := by
  obtain ⟨s, hs⟩ := hfree
  have heq : free_zombie B W.sched = none ∨
      free_zombie B W.sched = some ⟨s, W.bytes, max W.stack_peak (pending W)⟩ := by
    rw [free_zombie_eq]
    unfold pending
    cases hz : W.sys.s.zombie with
    | none =>
        right
        have hz' : W.sched.s.zombie = none := hz
        have hsame : W.sys.s = s := by
          simpa only [CFiber.Sched.free_zombie, hz, Option.some.injEq] using hs
        simp only [hz']
        rw [← hsame, Nat.max_eq_left (Nat.zero_le _)]
        rfl
    | some z =>
        have hz' : W.sched.s.zombie = some z := hz
        simp only [hz']
        split_ifs
        · exact Or.inl rfl
        · right
          rw [show CFiber.Sched.free_zombie B W.sched.s = some s from hs]
          rfl
  unfold turn
  rcases heq with heq | heq
  · rw [heq]
    exact Or.inl rfl
  · right
    rw [heq]
    unfold CFiber.Sched.turn
    rw [hs]
    dsimp only
    split_ifs
    · rcases dequeue_ready s with ⟨_ | t, s'⟩
      · exact ⟨rfl, rfl, rfl, rfl⟩
      · exact ⟨rfl, rfl, rfl, rfl⟩
    · exact ⟨rfl, rfl, rfl, rfl⟩

theorem step_trap (hpc : W.sys.pc = .trap) (d : Do) : step B cpu prologue W d = none := by
  cases d with
  | sched a => cases a <;> simp [step, CFiber.Sched.step, hpc]
  | store x b => simp [step, hpc]

variable {out : γ → List Region} {good : γ → Prop} {q : List Nat}

/-- The watched system takes step `a` of the plain one: a turn counts the zombie in, and a return is
noted. -/
structure Plain (B : Backing γ) (W W' : Watched T γ) (a : Action) : Prop where
  sys : CFiber.Sched.step B W.sys a = some W'.sys
  bytes : a ≠ .spawn → W'.bytes = W.bytes
  peak : W'.stack_peak = if a = .turn then max W.stack_peak (pending W) else W.stack_peak
  done : (a ≠ .finish ∧ W'.done = W.done) ∨ ∃ t, a = .finish ∧ W.sys.pc = .fiber t ∧
    W'.done = W.done ++ [(W.sys.s.mem.entry t, measure W.sched t)]

theorem watch_spawn (h : step B cpu prologue W (.sched .spawn) = some W') :
    Plain B W W' .spawn := by
  have hplain : CFiber.Sched.step B W.sys .spawn = some (CFiber.Sched.spawn B W.sys) ∧
      W' = spawn B cpu prologue W := by
    cases hpc : W.sys.pc with
    | host =>
        simp only [step, hpc, Option.some.injEq] at h
        exact ⟨by simp only [CFiber.Sched.step, hpc], h.symm⟩
    | fiber t =>
        simp only [step, hpc, Option.some.injEq] at h
        exact ⟨by simp only [CFiber.Sched.step, hpc], h.symm⟩
    | _ => simp [step, hpc] at h
  obtain ⟨hplain, rfl⟩ := hplain
  obtain ⟨hsys, hpeak, hdone⟩ := spawn_sys B cpu prologue W
  refine ⟨?_, fun hne => absurd rfl hne, hpeak, Or.inl ⟨by simp, hdone⟩⟩
  rw [hsys]
  exact hplain

theorem watch_turn (H : Honest T B out good) (hi : Inv out good W.sys q)
    (h : step B cpu prologue W (.sched .turn) = some W') :
    Plain B W W' .turn ∨
      W.sys.pc = .loop ∧ W' = { W with sys := { W.sys with pc := .trap } } := by
  cases hpc : W.sys.pc with
  | loop =>
      simp only [step, hpc, Option.some.injEq] at h
      subst h
      obtain ⟨s, hs, -⟩ := free_zombie_spec H hi.rep
      rcases turn_sys (W := W) ⟨s, hs⟩ with htrap | ⟨hsys, hbytes, hpeak, hdone⟩
      · exact Or.inr ⟨rfl, htrap⟩
      · left
        refine ⟨?_, fun _ => hbytes, hpeak, Or.inl ⟨by simp, hdone⟩⟩
        rw [hsys]
        simp only [CFiber.Sched.step, hpc]
  | _ => simp [step, hpc] at h

theorem watch_finish (h : step B cpu prologue W (.sched .finish) = some W') :
    Plain B W W' .finish := by
  cases hpc : W.sys.pc with
  | fiber t =>
      simp only [step, hpc] at h
      obtain ⟨sys, hsys, rfl⟩ := Option.map_eq_some_iff.mp h
      exact ⟨hsys, fun _ => rfl, rfl, Or.inr ⟨t, rfl, hpc, rfl⟩⟩
  | _ => simp [step, hpc] at h

theorem watch_store {x : Nat} {b : Fin 256} (h : step B cpu prologue W (.store x b) = some W') :
    ∃ t, W.sys.pc = .fiber t ∧ W' = { W with bytes := Function.update W.bytes x b } := by
  cases hpc : W.sys.pc with
  | fiber t =>
      simp only [step, hpc] at h
      split_ifs at h
      obtain rfl := Option.some.inj h
      exact ⟨t, rfl, rfl⟩
  | _ => simp [step, hpc] at h

/-- **A step** is one of the plain system, the trap on an overflow, or a store. -/
theorem watch_cases (H : Honest T B out good) (hi : Inv out good W.sys q) {d : Do}
    (h : step B cpu prologue W d = some W') :
    (∃ a, Plain B W W' a) ∨
    (W.sys.pc = .loop ∧ W' = { W with sys := { W.sys with pc := .trap } }) ∨
    ∃ t x b, W.sys.pc = .fiber t ∧ W' = { W with bytes := Function.update W.bytes x b } := by
  cases d with
  | store x b =>
      obtain ⟨t, hpc, hW⟩ := watch_store h
      exact Or.inr (Or.inr ⟨t, x, b, hpc, hW⟩)
  | sched a =>
      cases a with
      | spawn => exact Or.inl ⟨.spawn, watch_spawn h⟩
      | turn =>
          rcases watch_turn H hi h with hplain | htrap
          · exact Or.inl ⟨.turn, hplain⟩
          · exact Or.inr (Or.inl htrap)
      | finish => exact Or.inl ⟨.finish, watch_finish h⟩
      | run =>
          obtain ⟨sys, hsys, rfl⟩ := Option.map_eq_some_iff.mp h
          exact Or.inl ⟨.run, hsys, fun _ => rfl, rfl, Or.inl ⟨by simp, rfl⟩⟩
      | yield =>
          obtain ⟨sys, hsys, rfl⟩ := Option.map_eq_some_iff.mp h
          exact Or.inl ⟨.yield, hsys, fun _ => rfl, rfl, Or.inl ⟨by simp, rfl⟩⟩

end

/-! ## §5. The invariant. -/

/-- The fiber an event is the return of. -/
def who_returned : Event → Option Nat
  | .ret f => some f
  | _ => none

/-- The greatest measure of a fiber that returned. -/
def highest (done : List (Nat × Nat)) : Nat := (done.map Prod.snd).foldr max 0

theorem highest_snoc (done : List (Nat × Nat)) (f used : Nat) :
    highest (done ++ [(f, used)]) = max (highest done) used := by
  induction done with
  | nil => simp [highest]
  | cons d done ih =>
      unfold highest at ih ⊢
      simp only [List.cons_append, List.map_cons, List.foldr_cons] at ih ⊢
      rw [ih, Nat.max_assoc]

/-- Every fiber's descriptor is that of its block. -/
def Lodged (s : Scheduler T γ) : Prop :=
  ∀ t, Live s.task_alloc t →
    s.mem.stack t = fixed_stack T (stack_block s.mem t) s.stack_alloc.block_size

/-- **The invariant of a run.** -/
structure Sound (out : γ → List Region) (good : γ → Prop) (config : Config) (W : Watched T γ) :
    Prop where
  rep : ∃ q, Rep out good W.sys.s q
  shaped : Shaped config W.sys.s
  lodged : Lodged W.sys.s
  done : W.done.map Prod.fst = W.sys.events.filterMap who_returned
  inv : W.sys.pc ≠ .trap → ∃ q, Inv out good W.sys q
  counted : W.sys.pc ≠ .trap → max W.stack_peak (pending W) = highest W.done

section
variable {B : Backing γ} {out : γ → List Region} {good : γ → Prop} {config : Config} {q : List Nat}
  {cpu : Cpu} {prologue : Nat} {W W' : Watched T γ} {S S' : Sys T γ}

theorem Lodged.step {s s' : Scheduler T γ} (h : Lodged s) (hg : Given s s') : Lodged s' := by
  intro t ht
  rw [hg.block_size]
  rcases hg.fibers t ht with ⟨hold, hstack, -⟩ | ⟨mem, hstack, -⟩
  · unfold stack_block
    rw [hstack]
    exact h t hold
  · unfold stack_block
    rw [hstack]
    rfl

theorem Sound.start {sizeof_task : Nat} {m : TaskMem} {c : γ}
    {s : Scheduler T γ} (hinit : cfiber_scheduler_init_ext T sizeof_task config m c = some s)
    (hg : good c) (hout : out c = []) (bytes : Mem) : Sound out good config (boot s bytes) := by
  have hinv : Inv out good (CFiber.Sched.boot s) [] := Inv.start hinit hg hout
  have hz : s.zombie = none := (Rep.start hinit hg hout).2.2
  refine ⟨⟨[], hinv.rep⟩, Shaped.start hinit, ?_, rfl, fun _ => ⟨[], hinv⟩, fun _ => ?_⟩
  · intro t ht
    have hnone : tasks s [] = [] := by
      obtain ⟨-, hc, -⟩ := Rep.start hinit hg hout
      simp [tasks, hc, hz]
    have hmem := (hinv.rep.live_task t).mp ht
    rw [show tasks (CFiber.Sched.boot s).s [] = [] from hnone] at hmem
    exact absurd hmem List.not_mem_nil
  · simp [pending, boot, CFiber.Sched.boot, hz, highest]

/-- The host and the fibers find no zombie. -/
theorem no_zombie (h : Inv out good S q) (hpc : S.pc = .host ∨ ∃ t, S.pc = .fiber t) :
    S.s.zombie = none := by
  have hok := h.pc
  unfold PcOk at hok
  rcases hpc with hpc | ⟨t, hpc⟩
  · rw [hpc] at hok
    exact hok.2
  · rw [hpc] at hok
    exact hok.2

theorem pending_none (hz : W.sys.s.zombie = none) : pending W = 0 := by
  unfold pending
  rw [hz]

/-- A step of the plain system that is no return: the history of returns is the same, and only the
loop finds a zombie. -/
theorem step_no_return (H : Honest T B out good) (hi : Inv out good S q) {a : Action}
    (hne : a ≠ .finish) (h : CFiber.Sched.step B S a = some S') :
    S'.events.filterMap who_returned = S.events.filterMap who_returned ∧ S'.s.zombie = none ∧
      (a ≠ .turn → S.s.zombie = none) := by
  obtain ⟨q', hi', -⟩ := hi.step H h
  rcases step_cases h with ⟨rfl, hpc, rfl⟩ | ⟨rfl, hpc, rfl⟩ | ⟨rfl, hpc, rfl⟩ | ⟨t, rfl, hpc, rfl⟩ |
    ⟨t, rfl, hpc, rfl⟩
  · have hz := no_zombie hi hpc
    have hsame : (CFiber.Sched.spawn B S).pc = S.pc ∧
        (CFiber.Sched.spawn B S).events.filterMap who_returned = S.events.filterMap who_returned := by
      unfold CFiber.Sched.spawn
      rcases CFiber.Sched.cfiber_scheduler_spawn B S.s S.spawned with ⟨_ | _, s⟩
      · exact ⟨rfl, by simp [who_returned]⟩
      · exact ⟨rfl, by simp [who_returned]⟩
    rw [← hsame.1] at hpc
    exact ⟨hsame.2, no_zombie hi' hpc, fun _ => hz⟩
  · have hz := no_zombie hi (Or.inl hpc)
    exact ⟨rfl, hz, fun _ => hz⟩
  · -- the turn frees the zombie, if there is one
    have hfreed : (freed S.s).filterMap who_returned = [] := by
      unfold freed
      cases S.s.zombie <;> rfl
    have hback : ((CFiber.Sched.turn B S).pc = .host ∨ ∃ t, (CFiber.Sched.turn B S).pc = .fiber t) ∧
        (CFiber.Sched.turn B S).events = S.events ++ freed S.s := by
      rcases hi.turn H hpc with ⟨-, -, hhost, -, -, hevents, -⟩ |
        ⟨t, -, -, -, -, hfiber, -, -, -, hevents, -⟩
      · exact ⟨Or.inl hhost, hevents⟩
      · exact ⟨Or.inr ⟨t, hfiber⟩, hevents⟩
    refine ⟨?_, no_zombie hi' hback.1, fun hturn => absurd rfl hturn⟩
    rw [hback.2, List.filterMap_append, hfreed, List.append_nil]
  · -- a yield does not look at the zombie
    have hz := no_zombie hi (Or.inr ⟨t, hpc⟩)
    have hkept : (yielded S t).s.zombie = S.s.zombie := by
      unfold yielded cfiber_yield
      cases S.s.current with
      | none => rfl
      | some cur =>
          cases S.s.ready_head with
          | none => rfl
          | some u =>
              simp only [enqueue_ready_eq]
    refine ⟨?_, hkept.trans hz, fun _ => hz⟩
    simp [yielded, who_returned]
  · exact absurd rfl hne

theorem finish_sys {t : Nat} (hpc : S.pc = .fiber t)
    (h : CFiber.Sched.step B S .finish = some S') : S' = CFiber.Sched.returned S t := by
  simp only [CFiber.Sched.step, hpc, Option.some.injEq] at h
  exact h.symm

/-- **A fiber that returns** leaves its stack to be measured as it is. -/
theorem pending_finish {t : Nat} (hi : Inv out good W.sys q) (hpc : W.sys.pc = .fiber t)
    (h : CFiber.Sched.step B W.sys .finish = some W'.sys) (hbytes : W'.bytes = W.bytes) :
    pending W' = measure W.sched t := by
  have hcur : W.sys.s.current = some t := by
    have hok := hi.pc
    unfold PcOk at hok
    rw [hpc] at hok
    exact hok.1
  have hsys := finish_sys hpc h
  have hz : W'.sys.s.zombie = some t := by
    rw [hsys]
    exact hcur
  have hmem : W'.sys.s.mem = W.sys.s.mem := by
    rw [hsys]
    rfl
  unfold pending
  rw [hz]
  show cfiber_stack_debug_used_bytes T W'.bytes (W'.sys.s.mem.stack t) = _
  rw [hbytes, hmem]
  rfl

/-- **The returns are those of the history**: one more is noted exactly when a fiber returns. -/
theorem Plain.noted {a : Action} (H : Honest T B out good) (hi : Inv out good W.sys q)
    (hp : Plain B W W' a) (h : W.done.map Prod.fst = W.sys.events.filterMap who_returned) :
    W'.done.map Prod.fst = W'.sys.events.filterMap who_returned := by
  rcases hp.done with ⟨hne, hdone⟩ | ⟨t, rfl, hfiber, hdone⟩
  · rw [hdone, (step_no_return H hi hne hp.sys).1]
    exact h
  · rw [hdone, finish_sys hfiber hp.sys, List.map_append, h]
    show _ = (W.sys.events ++ [Event.ret (W.sys.s.mem.entry t)]).filterMap who_returned
    rw [List.filterMap_append]
    rfl

/-- **The measures are all counted**, but for that of the zombie: a return makes one, and the turn
after it counts it in. -/
theorem Plain.counted {a : Action} (H : Honest T B out good) (hi : Inv out good W.sys q)
    (hp : Plain B W W' a) (h : max W.stack_peak (pending W) = highest W.done) :
    max W'.stack_peak (pending W') = highest W'.done := by
  rcases hp.done with ⟨hne, hdone⟩ | ⟨t, rfl, hfiber, hdone⟩
  · obtain ⟨-, hz', hz⟩ := step_no_return H hi hne hp.sys
    rw [hdone, pending_none hz', Nat.max_eq_left (Nat.zero_le _), hp.peak, ← h]
    split_ifs with hturn
    · rfl
    · rw [pending_none (hz hturn), Nat.max_eq_left (Nat.zero_le _)]
  · -- the fiber that returns is the only one that waits to be measured
    have hz := no_zombie hi (Or.inr ⟨t, hfiber⟩)
    have hmeasure := pending_finish hi hfiber hp.sys (hp.bytes (by simp))
    rw [pending_none hz, Nat.max_eq_left (Nat.zero_le _)] at h
    rw [hdone, highest_snoc, hmeasure, hp.peak, ← h]
    rfl

/-- **A step keeps the invariant.** -/
theorem Sound.step (H : Honest T B out good) (h : Sound out good config W) {d : Do}
    (hs : step B cpu prologue W d = some W') : Sound out good config W' := by
  have hpc : W.sys.pc ≠ .trap := by
    intro hpc
    rw [step_trap hpc] at hs
    exact absurd hs (by simp)
  obtain ⟨q, hi⟩ := h.inv hpc
  have hcounted := h.counted hpc
  rcases watch_cases H hi hs with ⟨a, hp⟩ | ⟨hloop, rfl⟩ | ⟨t, x, b, hfiber, rfl⟩
  · obtain ⟨q', hi', -⟩ := hi.step H hp.sys
    have hgiven := step_given H hi hp.sys
    exact ⟨⟨q', hi'.rep⟩, h.shaped.step hgiven, h.lodged.step hgiven, hp.noted H hi h.done,
      fun _ => ⟨q', hi'⟩, fun _ => hp.counted H hi hcounted⟩
  · exact ⟨h.rep, h.shaped, h.lodged, h.done, fun hne => absurd rfl hne, fun hne => absurd rfl hne⟩
  · -- nothing waits to be measured while a fiber runs
    have hz := no_zombie hi (Or.inr ⟨t, hfiber⟩)
    refine ⟨h.rep, h.shaped, h.lodged, h.done, h.inv, fun _ => ?_⟩
    rw [pending_none hz] at hcounted
    rw [pending_none (W := { W with bytes := Function.update W.bytes x b }) hz]
    exact hcounted

theorem Sound.run (H : Honest T B out good) {sizeof_task : Nat} {m : TaskMem} {c : γ}
    {s : Scheduler T γ} (hinit : cfiber_scheduler_init_ext T sizeof_task config m c = some s)
    (hg : good c) (hout : out c = []) {bytes : Mem} {ds : List Do}
    (hrun : exec (Sanitized.step B cpu prologue) (boot s bytes) ds = some W) :
    Sound out good config W :=
  exec_inv (Sound out good config) (fun _ _ _ h hs => h.step H hs) (Sound.start hinit hg hout bytes)
    hrun

/-! ## §6. The watermark. -/

/-- A size below 256 bytes is not accepted. -/
theorem init_stack_size {sizeof_task : Nat} {m : TaskMem} {c : γ} {s : Scheduler T γ}
    (hinit : cfiber_scheduler_init_ext T sizeof_task config m c = some s) :
    256 ≤ config.stack_size := by
  by_contra hsmall
  unfold cfiber_scheduler_init_ext at hinit
  rw [if_pos (Or.inr (Nat.lt_of_not_le hsmall))] at hinit
  exact absurd hinit (by simp)

/-- **A fiber's descriptor is that of its block**, which has room for the canary and ends inside the
address space. -/
theorem Sound.whole (h : Sound out good config W)
    (hroom : 8 < W.sys.s.stack_alloc.block_size) {t : Nat} (ht : Live W.sys.s.task_alloc t) :
    Whole T (W.sys.s.mem.stack t) (stack_block W.sys.s.mem t) W.sys.s.stack_alloc.block_size := by
  obtain ⟨q, hr⟩ := h.rep
  obtain ⟨as, fs, hrep⟩ := hr.twin.snd.rep
  have htask := (hr.live_task t).mp ht
  have hlive := (hr.live_stack _).mpr ⟨t, htask, hr.based t htask⟩
  have hfit := hrep.live_fits hr.twin.snd.own hlive
  simp only at hfit
  refine ⟨hr.based t htask, ?_, hroom, hfit⟩
  rw [h.lodged t ht]
  exact T.wrap_of_lt hfit

/-- **The stack watermark.**  Whatever the bytes of a fiber's block have become since it was painted,
they are measured as `Measured` says, from the stack's beginning as `cfiber_init` computes it; and
the host and the fibers find in `stack_peak` the greatest measure of a fiber that returned.  A size
is a `size_t`. -/
theorem stack_watermark (H : Honest T B out good) {sizeof_task : Nat} {m : TaskMem} {c : γ}
    {s : Scheduler T γ} (hinit : cfiber_scheduler_init_ext T sizeof_task config m c = some s)
    (hg : good c) (hout : out c = []) (hsize : config.stack_size < 2 ^ T.WORD_BITS)
    (hasan : T.ASAN_REDZONE = 0) (hword : cpu.boot.word = T.WORD_BITS) {bytes : Mem} {ds : List Do}
    (hrun : exec (step B cpu prologue) (boot s bytes) ds = some W) :
    (∀ t, Live W.sys.s.task_alloc t → ∀ before now : Mem,
      let stack := W.sys.s.mem.fiber_stack t
      let stack_size := W.sys.s.mem.fiber_stack_size t
      let top := cpu.initial_top stack stack_size
      stack_size = config.stack_size ∧
      Measured T (W.sys.s.mem.stack t) top (W.sys.s.stack_alloc.block_size - stack_size)
        (stack + stack_size - top)
        (cfiber_stack_debug_init T before (W.sys.s.mem.stack t)) now) ∧
    W.done.map Prod.fst = W.sys.events.filterMap who_returned ∧
    (W.sys.pc = .host ∨ (∃ t, W.sys.pc = .fiber t) →
      cfiber_scheduler_stack_peak W.sched = (W.done.map Prod.snd).foldr max 0) := by
  have h := Sound.run H hinit hg hout hrun
  have hmin := init_stack_size hinit
  have hblock : config.stack_size ≤ W.sys.s.stack_alloc.block_size := by
    have hge := init_block_ge hinit
    rw [← h.shaped.block_size, hasan, Nat.add_zero, T.wrap_of_lt hsize] at hge
    exact hge
  refine ⟨?_, h.done, ?_⟩
  · intro t ht before now
    have hwhole := h.whole (by omega) ht
    have hfits := hwhole.fits
    obtain ⟨hbase, hlen⟩ := h.shaped.fibers t ht
    rw [hasan, Nat.add_zero, T.wrap_of_lt (by omega)] at hbase
    dsimp only
    rw [hbase, hlen]
    refine ⟨rfl, hwhole.measured hblock ?_ before now⟩
    apply clear_low_le cpu.boot_ok.align_le
    rw [hword]
    omega
  · intro hpc
    have htrap : W.sys.pc ≠ .trap := by
      rcases hpc with hpc | ⟨t, hpc⟩ <;> simp [hpc]
    obtain ⟨q, hi⟩ := h.inv htrap
    have hcounted := h.counted htrap
    rw [pending_none (no_zombie hi hpc), Nat.max_eq_left (Nat.zero_le _)] at hcounted
    exact hcounted

end

/-! ## §7. A deep fiber. -/

/-- Two fibers on blocks of 320 bytes for stacks of 300; the first stores down to the second byte
above its canary and returns. -/
def deep_fiber : List Do :=
  [.sched .spawn, .sched .spawn, .sched .run, .sched .turn, .store 841 ⟨0, by decide⟩,
    .sched .finish, .sched .turn]

theorem stack_watermark_deep : ∃ s W t,
    cfiber_scheduler_init_ext lp64 120 ⟨300, 4, 0⟩ blank (64, []) = some s ∧
    exec (step bump .x86_64 4096) (boot s fun _ => 0) deep_fiber = some W ∧
    W.sys.pc = .fiber t ∧ W.done = [(0, 311)] ∧ cfiber_scheduler_stack_peak W.sched = 311 ∧
    Measured lp64 (W.sys.s.mem.stack t)
      (Cpu.initial_top .x86_64 (W.sys.s.mem.fiber_stack t) (W.sys.s.mem.fiber_stack_size t))
      (W.sys.s.stack_alloc.block_size - W.sys.s.mem.fiber_stack_size t)
      (W.sys.s.mem.fiber_stack t + W.sys.s.mem.fiber_stack_size t -
        Cpu.initial_top .x86_64 (W.sys.s.mem.fiber_stack t) (W.sys.s.mem.fiber_stack_size t))
      (cfiber_stack_debug_init lp64 (fun _ => 0) (W.sys.s.mem.stack t)) W.bytes := by
  have hsome : ((cfiber_scheduler_init_ext lp64 120 ⟨300, 4, 0⟩ blank (64, [])).bind fun s =>
      (exec (step bump .x86_64 4096) (boot s fun _ => 0) deep_fiber).map fun W =>
        (W.sys.pc, W.done)) = some (.fiber 320, [(0, 311)]) := by decide +kernel
  obtain ⟨s, hs, hsome⟩ := Option.bind_eq_some_iff.mp hsome
  obtain ⟨W, hrun, hfacts⟩ := Option.map_eq_some_iff.mp hsome
  obtain ⟨hpc, hdone⟩ := Prod.mk.inj hfacts
  have hgood : bumpOk (64, []) := ⟨rfl, fun _ h => absurd h List.not_mem_nil⟩
  have hsound := Sound.run bump_honest hs hgood rfl hrun
  obtain ⟨q, hi⟩ := hsound.inv (by rw [hpc]; simp)
  have hlive : Live W.sys.s.task_alloc 320 := by
    have hok := hi.pc
    unfold PcOk at hok
    rw [hpc] at hok
    rw [hi.rep.live_task]
    simp [tasks, hok.1]
  obtain ⟨hmeasured, -, hpeak⟩ := stack_watermark bump_honest hs hgood rfl (by decide) rfl rfl hrun
  refine ⟨s, W, 320, hs, hrun, hpc, hdone, ?_, (hmeasured 320 hlive _ _).2⟩
  rw [hpeak (Or.inr ⟨320, hpc⟩), hdone]
  rfl

end CFiber.Sched.Sanitized
