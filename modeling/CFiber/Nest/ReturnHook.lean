/-
  CFiber.Nest.ReturnHook — which loop a fiber returns to.

  A fiber that returns should return to the loop that dispatched it (`Owned`).  The calls that give
  control back to a loop act on the thread's current scheduler or current reactor, and that is not
  always the innermost loop: `cfiber_ev_wait` in a fiber of a scheduler that runs inside a fiber of
  a reactor parks the reactor's fiber, with the context of the scheduler's, and leaves the
  scheduler's hook registered while the reactor goes on.

    • `hook_ownership_iff` — every state of a run is `Owned` exactly when each switch of the run is
      the innermost loop's;
    • `parked_from_below`  — a run where one is not: a fiber of a reactor returns to a scheduler.
-/
import CFiber.Nest.Nesting

namespace CFiber.Nest

open CFiber.Base

/-! ## §1. What a call does. -/

/-- The loop whose fiber a call switches out. -/
def acts (S : Thread) : Action → Option Loop
  | .cfiber_yield => S.s_current_sched.bind fun s =>
      if (S.records (.sched s)).current = none ∨ (S.records (.sched s)).ready = [] then none
      else some (.sched s)
  | .cfiber_ev_yield => (running_fiber S).map fun p => .reactor p.1
  | .cfiber_ev_wait ok => if ok then (running_fiber S).map fun p => .reactor p.1 else none
  | _ => none

/-- A run function is called on a loop and does not refuse. -/
def enters (S : Thread) : Loop → Prop
  | .sched _ => True
  | .reactor r => S.g_reactor ≠ some r

instance (S : Thread) : (l : Loop) → Decidable (enters S l)
  | .sched _ => inferInstanceAs (Decidable True)
  | .reactor r => inferInstanceAs (Decidable (S.g_reactor ≠ some r))

/-- **What a call can do.** -/
inductive Called (S : Thread) : Action → Thread → Prop where
  | nothing {a : Action} (hacts : acts S a = none) : Called S a S
  | spawn {a : Action} (hacts : acts S a = none) (l : Loop) (ok : Bool) : Called S a (spawn S l ok)
  | refuse {r : Nat} (hr : S.g_reactor = some r) :
      Called S (.run (.reactor r)) { S with errno := some .EBUSY, rc := -1 }
  | enter {l : Loop} (hl : enters S l) : Called S (.run l) (enter S l)
  | switch_out {a : Action} {l : Loop} {cur : Nat} {change : Record → Record}
      (hacts : acts S a = some l) (hcur : (S.records l).current = some cur)
      (hk : Keeps (S.records l) (change (S.records l))) : Called S a (switch_out S l cur change)

theorem cfiber_yield_called (S : Thread) : Called S .cfiber_yield (cfiber_yield S) := by
  unfold cfiber_yield
  split
  case h_1 hs => exact .nothing (by simp [acts, hs])
  case h_2 s hs =>
    split
    case h_1 hcur => exact .nothing (by simp [acts, hs, hcur])
    case h_2 cur hcur =>
      split
      case isTrue hready => exact .nothing (by simp [acts, hs, hready])
      case isFalse hready =>
        refine .switch_out (by simp [acts, hs, hcur, hready]) hcur ⟨rfl, ?_⟩
        intro f hf
        simp only [Record.mem_fibers, List.mem_append, List.mem_singleton] at hf ⊢
        grind

theorem running_fiber_eq {S : Thread} {s cur : Nat} (h : running_fiber S = some (s, cur)) :
    S.g_reactor = some s ∧ (S.records (.reactor s)).current = some cur := by
  unfold running_fiber at h
  split at h
  case h_1 => simp at h
  case h_2 r hr =>
    obtain ⟨f, hf, heq⟩ := Option.map_eq_some_iff.mp h
    obtain ⟨rfl, rfl⟩ := Prod.mk.inj heq
    exact ⟨hr, hf⟩

theorem cfiber_ev_yield_called (S : Thread) : Called S .cfiber_ev_yield (cfiber_ev_yield S) := by
  unfold cfiber_ev_yield
  split
  case h_1 hrun => exact .nothing (by simp [acts, hrun])
  case h_2 s cur hrun =>
    refine .switch_out (by simp [acts, hrun]) (running_fiber_eq hrun).2 ⟨rfl, ?_⟩
    intro f hf
    have hcur := (running_fiber_eq hrun).2
    simp only [Record.mem_fibers, List.mem_append, List.mem_singleton] at hf ⊢
    grind

theorem cfiber_ev_wait_called (S : Thread) (ok : Bool) :
    Called S (.cfiber_ev_wait ok) (cfiber_ev_wait S ok) := by
  unfold cfiber_ev_wait
  split
  case h_1 hrun => exact .nothing (by simp [acts, hrun])
  case h_2 s cur hrun =>
    split
    case isFalse hok => exact .nothing (by simp [acts, hok])
    case isTrue hok =>
      refine .switch_out (by simp [acts, hrun, hok]) (running_fiber_eq hrun).2 ⟨rfl, ?_⟩
      intro f hf
      have hcur := (running_fiber_eq hrun).2
      simp only [Record.mem_fibers, List.mem_append, List.mem_singleton] at hf ⊢
      grind

theorem cfiber_reactor_run_called (S : Thread) (r : Nat) :
    Called S (.run (.reactor r)) (cfiber_reactor_run S r) := by
  unfold cfiber_reactor_run
  split
  case isTrue hr => exact .refuse hr
  case isFalse hr => exact .enter hr

theorem call_called {S T : Thread} {a : Action} (h : call S a = some T) : Called S a T := by
  cases a with
  | spawn l ok =>
      obtain rfl := Option.some.inj h
      exact .spawn rfl l ok
  | cfiber_spawn ok =>
      obtain rfl := Option.some.inj h
      unfold cfiber_spawn
      split
      case h_1 => exact .nothing rfl
      case h_2 s _ => exact .spawn rfl (.sched s) ok
  | cfiber_ev_spawn ok =>
      obtain rfl := Option.some.inj h
      unfold cfiber_ev_spawn
      split
      case h_1 => exact .nothing rfl
      case h_2 r _ => exact .spawn rfl (.reactor r) ok
  | run l =>
      cases l with
      | sched s =>
          obtain rfl := Option.some.inj h
          exact .enter trivial
      | reactor r =>
          obtain rfl := Option.some.inj h
          exact cfiber_reactor_run_called S r
  | cfiber_yield =>
      obtain rfl := Option.some.inj h
      exact cfiber_yield_called S
  | cfiber_ev_yield =>
      obtain rfl := Option.some.inj h
      exact cfiber_ev_yield_called S
  | cfiber_ev_wait ok =>
      obtain rfl := Option.some.inj h
      exact cfiber_ev_wait_called S ok
  | finish => simp [call] at h
  | turn poll => simp [call] at h

/-! ## §2. The conditions. -/

/-- No loop that runs is entered again. -/
def NoReentry (S : Thread) : Action → Prop
  | .run l => enters S l → l ∉ S.loops
  | _ => True

instance (S : Thread) : (a : Action) → Decidable (NoReentry S a)
  | .run l => inferInstanceAs (Decidable (enters S l → l ∉ S.loops))
  | .spawn _ _ | .cfiber_spawn _ | .cfiber_ev_spawn _ | .cfiber_yield | .cfiber_ev_yield
  | .cfiber_ev_wait _ | .finish | .turn _ => inferInstanceAs (Decidable True)

/-- **The switch, if there is one, is the innermost loop's.** -/
def Innermost (S : Thread) (a : Action) : Prop := acts S a = none ∨ acts S a = S.loops.head?

instance (S : Thread) (a : Action) : Decidable (Innermost S a) :=
  inferInstanceAs (Decidable (acts S a = none ∨ acts S a = S.loops.head?))

@[simp] theorem Loop.hook_loop (l : Loop) : l.hook.loop = l := by cases l <;> rfl

/-- A fiber returns: the hook is the one of the loop that runs it. -/
theorem Nested.cfiber_epilogue {S : Thread} {h₀ : Option Hook} (h : Nested S h₀) {f : Nat}
    (hpc : S.pc = .fiber f) : Nested (cfiber_epilogue S) h₀ := by
  obtain ⟨k, ks, hchain, hr⟩ := h.at_fiber hpc
  have hhook : S.s_return_hook = some (S.frames k).loop.hook := by
    rw [h.hook, Thread.loops_eq hchain]
    rfl
  unfold Nest.cfiber_epilogue return_hook
  simp only [hhook, Loop.hook_loop, hr.current]
  refine h.switch_out hpc hchain hr ⟨rfl, ?_⟩
  intro g hg
  have hcur := hr.current
  simp only [Record.mem_fibers] at hg ⊢
  grind

theorem Nested.call {S T : Thread} {h₀ : Option Hook} {a : Action} (h : Nested S h₀)
    (hloop : ∀ k, S.pc ≠ .loop k) (htrap : S.pc ≠ .trap) (hre : NoReentry S a)
    (hin : Innermost S a) (hc : Called S a T) : Nested T h₀ := by
  cases hc with
  | nothing _ => exact h
  | spawn _ l ok => exact h.spawn l ok
  | refuse _ => exact h.refused _ _
  | enter hl => exact h.enter htrap (hre hl)
  | @switch_out _ l cur change hacts hcur hk =>
      rcases hin with hnone | hhead
      · simp [hnone] at hacts
      · rw [hacts] at hhead
        cases hpc : S.pc with
        | loop k => exact absurd hpc (hloop k)
        | trap => exact absurd hpc htrap
        | host =>
            -- Host code is at the bottom of the stack, where no loop runs.
            have hs := h.spine htrap
            rw [hpc] at hs
            cases hchain : S.chain with
            | nil => simp [Thread.loops, hchain] at hhead
            | cons k ks =>
                rw [hchain] at hs
                obtain hw | ⟨f, hw, _⟩ := hs.2.2.1
                · simp at hw
                · simp at hw
        | fiber f =>
            obtain ⟨k, ks, hchain, hr⟩ := h.at_fiber hpc
            obtain rfl : l = (S.frames k).loop := by
              simpa [Thread.loops_eq hchain] using hhead
            obtain rfl : f = cur := Option.some.inj (hr.current.symm.trans hcur)
            exact h.switch_out hpc hchain hr hk

/-- **Step lemma.** -/
theorem Nested.step {S T : Thread} {h₀ : Option Hook} {a : Action} (h : Nested S h₀)
    (hre : NoReentry S a) (hin : Innermost S a) (hstep : step S a = some T) : Nested T h₀ := by
  unfold Nest.step at hstep
  cases hpc : S.pc with
  | host =>
      simp only [hpc] at hstep
      exact h.call (by simp [hpc]) (by simp [hpc]) hre hin (call_called hstep)
  | fiber f =>
      simp only [hpc] at hstep
      split at hstep
      · obtain rfl := Option.some.inj hstep
        exact h.cfiber_epilogue hpc
      · exact h.call (by simp [hpc]) (by simp [hpc]) hre hin (call_called hstep)
  | loop k =>
      simp only [hpc] at hstep
      split at hstep
      · obtain rfl := Option.some.inj hstep
        exact h.turn hpc _
      · simp at hstep
  | trap => simp [hpc] at hstep

/-! ## §3. Ownership. -/

/-- **Every fiber is with its own loop.** -/
structure Owned (S : Thread) : Prop where
  /-- If the fiber that control is in returns, `cfiber_epilogue` calls the hook of the loop that
  dispatched it, whose `current` it is. -/
  returns : ∀ f, S.pc = .fiber f → ∃ l, S.dispatcher f = some l ∧ S.s_return_hook = some l.hook ∧
    (S.records l).current = some f
  /-- What a loop queues, runs, reaps and frees was spawned on it. -/
  holds : ∀ l, ∀ f ∈ (S.records l).fibers, S.owner f = some l
  /-- What was saved when a fiber was switched out is that fiber. -/
  saves : ∀ f, f < S.spawned → S.fctx f = .fiber f

theorem Nested.owned {S : Thread} {h₀ : Option Hook} (h : Nested S h₀) : Owned S where
  returns := by
    intro f hpc
    obtain ⟨k, ks, hchain, hr⟩ := h.at_fiber hpc
    refine ⟨_, hr.dispatcher, ?_, hr.current⟩
    rw [h.hook, Thread.loops_eq hchain]
    rfl
  holds := h.held
  saves := h.saved

/-- A switch that is not the innermost loop's takes the running fiber for another. -/
theorem Nested.not_owned {S T : Thread} {h₀ : Option Hook} {a : Action} (h : Nested S h₀)
    (hin : ¬ Innermost S a) (hstep : Nest.step S a = some T) : ¬ Owned T := by
  have hacts : acts S a ≠ none := fun hnone => hin (.inl hnone)
  have hbusy : ¬ (S.s_current_sched = none ∧ S.g_reactor = none) := by
    rintro ⟨hs, hr⟩
    cases a <;> simp [acts, running_fiber, hs, hr] at hacts
  have hcall : ∀ f, S.pc = .fiber f → Called S a T := by
    intro f hpc
    unfold Nest.step at hstep
    simp only [hpc] at hstep
    split at hstep
    · simp [acts] at hacts
    · exact call_called hstep
  cases hpc : S.pc with
  | trap => simp [Nest.step, hpc] at hstep
  | loop k =>
      cases a <;> simp [Nest.step, hpc, acts] at hstep hacts
  | host =>
      have hs := h.spine (by simp [hpc])
      rw [hpc] at hs
      cases hchain : S.chain with
      | nil =>
          have hloops : S.loops = [] := by simp [Thread.loops, hchain]
          exact absurd ⟨by rw [h.sched, hloops]; rfl, by rw [h.reactor, hloops]; rfl⟩ hbusy
      | cons k ks =>
          rw [hchain] at hs
          obtain hw | ⟨f, hw, _⟩ := hs.2.2.1
          · simp at hw
          · simp at hw
  | fiber f =>
      obtain ⟨k, ks, hchain, hr⟩ := h.at_fiber hpc
      intro hT
      cases hcall f hpc with
      | nothing hnone => exact hacts hnone
      | spawn hnone _ _ => exact hacts hnone
      | refuse _ => simp [acts] at hacts
      | enter _ => simp [acts] at hacts
      | @switch_out _ l cur change hl hcur hk =>
          have howner : S.owner cur = some l := h.held l cur (by simp [hcur])
          have hsaved : Function.update S.fctx cur S.pc cur = .fiber cur :=
            hT.saves cur (h.born cur l howner)
          obtain rfl : f = cur := by simpa [hpc] using hsaved
          -- The fiber that control is in belongs to the innermost loop, and to `l`.
          have heq : l = (S.frames k).loop := Option.some.inj (howner.symm.trans hr.owner)
          apply hin
          right
          rw [hl, heq, Thread.loops_eq hchain]
          rfl

/-- **The hook is the dispatching loop's** along a run in which no loop is re-entered exactly when
each call that switches a fiber out is made while its loop is the innermost. -/
theorem hook_ownership_iff {h₀ : Option Hook} {as : List Action} {S : Thread}
    (hrun : exec (under NoReentry step) (start h₀) as = some S) :
    Along (under NoReentry step) Owned (start h₀) as ↔
      exec (under Innermost (under NoReentry step)) (start h₀) as = some S := by
  apply along_iff_under (fun S => Nested S h₀) _ _ _ (Nested.start h₀) hrun
  · intro S h
    exact h.owned
  · intro S a T h hin hstep
    obtain ⟨hre, hstep⟩ := under_eq_some.mp hstep
    exact h.step hre hin hstep
  · intro S a T h hin hstep
    exact h.not_owned hin (under_eq_some.mp hstep).2

theorem nested_of_run {h₀ : Option Hook} {as : List Action} {S : Thread}
    (hrun : exec (under Innermost (under NoReentry step)) (start h₀) as = some S) :
    Nested S h₀ := by
  apply exec_inv (fun S => Nested S h₀) _ (Nested.start h₀) hrun
  intro S a T h hstep
  obtain ⟨hin, hstep⟩ := under_eq_some.mp hstep
  obtain ⟨hre, hstep⟩ := under_eq_some.mp hstep
  exact h.step hre hin hstep

/-- A fiber of a reactor runs a scheduler whose two fibers yield to each other and return; then it
waits, is resumed and returns. -/
def nested_run : List Action :=
  [.spawn (.reactor 0) true, .run (.reactor 0), .turn .interrupted, .turn .interrupted,
    .spawn (.sched 0) true, .spawn (.sched 0) true, .run (.sched 0), .turn .interrupted,
    .cfiber_yield, .turn .interrupted, .finish, .turn .interrupted, .finish, .turn .interrupted,
    .cfiber_ev_wait true, .turn (.resume [0]), .turn .interrupted, .turn .interrupted, .finish,
    .turn .interrupted]

theorem hook_ownership_nested : Along (under NoReentry step) Owned (start none) nested_run := by
  have h : (exec (under Innermost (under NoReentry step)) (start none) nested_run).isSome := by
    decide
  obtain ⟨S, hS⟩ := Option.isSome_iff_exists.mp h
  exact (hook_ownership_iff (exec_of_under hS)).mpr hS

/-- Fiber 0 of a reactor, which has another fiber 1, runs a scheduler with a fiber 2, which waits on
the reactor; the reactor goes on with fiber 1. -/
def parked_run : List Action :=
  [.spawn (.reactor 0) true, .spawn (.reactor 0) true, .run (.reactor 0), .turn .interrupted,
    .turn .interrupted, .spawn (.sched 0) true, .run (.sched 0), .turn .interrupted,
    .cfiber_ev_wait true, .turn .interrupted]

/-- Fiber 1 of the reactor returns to the scheduler, which reaps its fiber 2 in its place. -/
theorem parked_from_below :
    ∃ S T, exec (under NoReentry step) (start none) parked_run = some S ∧
      S.pc = .fiber 1 ∧ S.dispatcher 1 = some (.reactor 0) ∧
      S.s_return_hook = some (.builtin_return_hook 0) ∧
      exec (under NoReentry step) (start none) (parked_run ++ [.finish]) = some T ∧
      (T.records (.sched 0)).zombie = some 2 ∧ ¬ Owned S := by
  have hS : (exec (under NoReentry step) (start none) parked_run).map
      (fun S => (S.pc, S.dispatcher 1, S.s_return_hook)) =
      some (.fiber 1, some (.reactor 0), some (.builtin_return_hook 0)) := by
    decide
  have hT : (exec (under NoReentry step) (start none) (parked_run ++ [.finish])).map
      (fun S => (S.records (.sched 0)).zombie) = some (some 2) := by
    decide
  obtain ⟨S, hrun, heq⟩ := Option.map_eq_some_iff.mp hS
  obtain ⟨T, hrun', hzombie⟩ := Option.map_eq_some_iff.mp hT
  obtain ⟨hpc, hdisp, hhook⟩ : S.pc = .fiber 1 ∧ S.dispatcher 1 = some (.reactor 0) ∧
      S.s_return_hook = some (.builtin_return_hook 0) := by
    simpa using heq
  refine ⟨S, T, hrun, hpc, hdisp, hhook, hrun', hzombie, ?_⟩
  intro hown
  obtain ⟨l, hl, hlhook, _⟩ := hown.returns 1 hpc
  obtain rfl : .reactor 0 = l := Option.some.inj (hdisp.symm.trans hl)
  rw [hhook] at hlhook
  simp [Loop.hook] at hlhook

end CFiber.Nest
