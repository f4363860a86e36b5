/-
  CFiber.Nest.Reentry — running a reactor that runs already.

  `cfiber_reactor_run` refuses a reactor that is the thread's current one.  A reactor that another
  reactor runs on top of is not the current one; the call then enters it a second time.

    • `reentry_refused_iff` — a call on a reactor that runs is refused exactly when the reactor is
      the current one, which on a properly nested stack is the innermost reactor; and no reactor is ever
      run twice at once along a run exactly when each such call of it is on the current one;
    • `reentered_below`     — a run that enters a reactor twice, and loses the outer run's context.
-/
import CFiber.Nest.ReturnHook

namespace CFiber.Nest

open CFiber.Base

/-! ## §1. Activations. -/

/-- Control is in the host's code or in a fiber's. -/
def UserCode (S : Thread) : Prop := S.pc = .host ∨ ∃ f, S.pc = .fiber f

/-- The call `cfiber_reactor_run(r)` is refused: -1 with `EBUSY`, and no record is touched. -/
def Refused (S : Thread) (r : Nat) : Prop :=
  ∃ T, step S (.run (.reactor r)) = some T ∧ T.rc = -1 ∧ T.errno = some .EBUSY ∧
    T.records = S.records ∧ T.pc = S.pc

/-- No reactor's loop has two activations. -/
def OneActivation (S : Thread) : Prop := ∀ r, S.loops.count (.reactor r) ≤ 1

/-- A reactor that runs is only run again where it is the current one. -/
def Recognised (S : Thread) : Action → Prop
  | .run (.reactor r) => .reactor r ∈ S.loops → S.g_reactor = some r
  | _ => True

instance (S : Thread) : (a : Action) → Decidable (Recognised S a)
  | .run (.reactor r) => inferInstanceAs (Decidable (.reactor r ∈ S.loops → S.g_reactor = some r))
  | .run (.sched _) | .spawn _ _ | .cfiber_spawn _ | .cfiber_ev_spawn _ | .cfiber_yield
  | .cfiber_ev_yield | .cfiber_ev_wait _ | .finish | .turn _ => inferInstanceAs (Decidable True)

/-- The running calls of `T` are those of `S`, or fewer. -/
structure Stays (S T : Thread) : Prop where
  loop : ∀ k, (T.frames k).loop = (S.frames k).loop
  calls : T.calls = S.calls
  chain : T.chain.Sublist S.chain

theorem Stays.refl (S : Thread) : Stays S S := ⟨fun _ => rfl, rfl, .refl _⟩

theorem Stays.trans {S T U : Thread} (h : Stays S T) (h' : Stays T U) : Stays S U where
  loop := fun k => (h'.loop k).trans (h.loop k)
  calls := h'.calls.trans h.calls
  chain := h'.chain.trans h.chain

theorem Stays.loops {S T : Thread} (h : Stays S T) : T.loops.Sublist S.loops := by
  have heq : T.loops = T.chain.map fun k => (S.frames k).loop :=
    List.map_congr_left fun k _ => h.loop k
  rw [heq]
  exact h.chain.map _

/-- **Activations are distinct calls.** -/
structure Distinct (S : Thread) : Prop where
  lt : ∀ k ∈ S.chain, k < S.calls
  once : OneActivation S

theorem Distinct.stays {S T : Thread} (h : Distinct S) (hT : Stays S T) : Distinct T where
  lt := by
    intro k hk
    rw [hT.calls]
    exact h.lt k (hT.chain.subset hk)
  once := by
    intro r
    have hle : T.loops.count (.reactor r) ≤ S.loops.count (.reactor r) := hT.loops.count_le _
    have := h.once r
    omega

theorem Distinct.fresh {S : Thread} (h : Distinct S) : S.calls ∉ S.chain := by
  intro hmem
  exact absurd (h.lt _ hmem) (Nat.lt_irrefl _)

theorem Distinct.enter {S : Thread} (h : Distinct S) {l : Loop}
    (hl : ∀ r, l = .reactor r → .reactor r ∉ S.loops) : Distinct (enter S l) where
  lt := by
    intro k hk
    rw [enter_chain] at hk
    rw [enter_calls]
    rcases List.mem_cons.mp hk with rfl | hk
    · exact Nat.lt_succ_self _
    · exact Nat.lt_succ_of_lt (h.lt k hk)
  once := by
    intro r
    rw [enter_loops h.fresh]
    by_cases hr : l = .reactor r
    · have hzero : S.loops.count (.reactor r) = 0 := List.count_eq_zero_of_not_mem (hl r hr)
      rw [hr, List.count_cons_self]
      omega
    · rw [List.count_cons_of_ne hr]
      exact h.once r

/-! ## §2. Everything but entering stays. -/

theorem set_phase_stays (S : Thread) (k : Nat) (phase : Phase) : Stays S (set_phase S k phase) where
  loop := by
    intro j
    unfold set_phase
    by_cases hj : j = k
    · simp [hj]
    · simp [hj]
  calls := rfl
  chain := .refl _

theorem leave_stays (S : Thread) (k : Nat) (rc : Int) : Stays S (leave S k rc) := by
  cases hl : (S.frames k).loop with
  | sched s =>
      rw [leave_sched hl]
      exact ⟨fun _ => rfl, rfl, List.erase_sublist⟩
  | reactor r =>
      rw [leave_reactor hl]
      exact ⟨fun _ => rfl, rfl, List.erase_sublist⟩

theorem scheduler_turn_stays (S : Thread) (k s : Nat) : Stays S (scheduler_turn S k s) := by
  unfold scheduler_turn
  dsimp only
  split
  case isTrue =>
    split
    case h_1 => exact ⟨fun _ => rfl, rfl, .refl _⟩
    case h_2 => exact ⟨fun _ => rfl, rfl, .refl _⟩
  case isFalse =>
    have hreap : Stays S (reap S (.sched s)) := ⟨fun _ => rfl, rfl, .refl _⟩
    exact hreap.trans (leave_stays _ k 0)

theorem reactor_poll_stays (S : Thread) (k r : Nat) (poll : Poll) :
    Stays S (reactor_poll S k r poll) := by
  unfold reactor_poll
  split
  case isTrue => exact leave_stays S k 0
  case isFalse =>
    cases poll with
    | failed => exact leave_stays S k (-1)
    | interrupted => exact set_phase_stays S k .top
    | resume ws =>
        let r' := ws.foldl resume (S.records (.reactor r))
        have hresume : Stays S { S with records := Function.update S.records (.reactor r) r' } :=
          ⟨fun _ => rfl, rfl, .refl _⟩
        exact hresume.trans (set_phase_stays _ k .top)

theorem reactor_turn_stays (S : Thread) (k r : Nat) (poll : Poll) :
    Stays S (reactor_turn S k r poll) := by
  have hreap : Stays S (reap S (.reactor r)) := ⟨fun _ => rfl, rfl, .refl _⟩
  unfold reactor_turn
  split
  case h_1 =>
    split
    case isTrue => exact set_phase_stays S k _
    case isFalse => exact leave_stays S k 0
  case h_2 stop last _ =>
    dsimp only
    split
    case h_1 => exact hreap.trans (reactor_poll_stays _ k r poll)
    case h_2 f rest _ =>
      split
      case isTrue => exact hreap.trans (reactor_poll_stays _ k r poll)
      case isFalse =>
        have hphase := hreap.trans (set_phase_stays _ k (.round stop (some f)))
        exact hphase.trans ⟨fun _ => rfl, rfl, .refl _⟩

theorem cfiber_epilogue_stays (S : Thread) : Stays S (cfiber_epilogue S) := by
  unfold cfiber_epilogue return_hook
  split
  case h_1 hook _ =>
    split
    case h_1 => exact ⟨fun _ => rfl, rfl, .refl _⟩
    case h_2 => exact ⟨fun _ => rfl, rfl, .refl _⟩
  case h_2 => exact ⟨fun _ => rfl, rfl, .refl _⟩

theorem called_stays {S T : Thread} {a : Action} (h : Called S a T) :
    Stays S T ∨ ∃ l, a = .run l ∧ enters S l ∧ T = enter S l := by
  cases h with
  | nothing _ => exact .inl (Stays.refl S)
  | spawn _ l ok =>
      left
      unfold spawn
      split
      · exact ⟨fun _ => rfl, rfl, .refl _⟩
      · exact Stays.refl S
  | refuse _ => exact .inl ⟨fun _ => rfl, rfl, .refl _⟩
  | enter hl => exact .inr ⟨_, rfl, hl, rfl⟩
  | switch_out _ _ _ => exact .inl ⟨fun _ => rfl, rfl, .refl _⟩

theorem step_stays {S T : Thread} {a : Action} (hstep : step S a = some T) :
    Stays S T ∨ ∃ l, a = .run l ∧ enters S l ∧ T = enter S l := by
  unfold step at hstep
  cases hpc : S.pc with
  | host =>
      simp only [hpc] at hstep
      exact called_stays (call_called hstep)
  | fiber f =>
      simp only [hpc] at hstep
      split at hstep
      · obtain rfl := Option.some.inj hstep
        exact .inl (cfiber_epilogue_stays S)
      · exact called_stays (call_called hstep)
  | loop k =>
      simp only [hpc] at hstep
      split at hstep
      · obtain rfl := Option.some.inj hstep
        left
        unfold turn
        split
        · exact scheduler_turn_stays S k _
        · exact reactor_turn_stays S k _ _
      · simp at hstep
  | trap => simp [hpc] at hstep

/-! ## §3. Refusal. -/

theorem Distinct.step {S T : Thread} {a : Action} (h : Distinct S) (hrec : Recognised S a)
    (hstep : step S a = some T) : Distinct T := by
  rcases step_stays hstep with hT | ⟨l, rfl, hl, rfl⟩
  · exact h.stays hT
  · apply h.enter
    rintro r rfl hmem
    exact hl (hrec hmem)

theorem step_run_reactor {S : Thread} {r : Nat} (huser : UserCode S) :
    step S (.run (.reactor r)) = some (cfiber_reactor_run S r) := by
  unfold step
  rcases huser with hpc | ⟨f, hpc⟩
  · simp only [hpc, call]
  · simp only [hpc, call]

theorem user_code_of_step {S T : Thread} {l : Loop} (hstep : step S (.run l) = some T) :
    UserCode S := by
  unfold step at hstep
  cases hpc : S.pc with
  | host => exact .inl hpc
  | fiber f => exact .inr ⟨f, hpc⟩
  | loop k => simp [hpc] at hstep
  | trap => simp [hpc] at hstep

/-- A reactor that runs and is not the current one is entered a second time. -/
theorem Distinct.reentered {S T : Thread} {a : Action} (h : Distinct S) (hrec : ¬ Recognised S a)
    (hstep : Nest.step S a = some T) : ¬ OneActivation T := by
  obtain ⟨r, rfl, hmem, hr⟩ : ∃ r, a = .run (.reactor r) ∧ .reactor r ∈ S.loops ∧
      S.g_reactor ≠ some r := by
    unfold Recognised at hrec
    split at hrec
    · exact ⟨_, rfl, Classical.not_imp.mp hrec⟩
    · exact absurd trivial hrec
  obtain rfl : cfiber_reactor_run S r = T :=
    Option.some.inj ((step_run_reactor (user_code_of_step hstep)).symm.trans hstep)
  unfold cfiber_reactor_run
  rw [if_neg hr]
  intro hone
  have h2 : (Nest.enter S (.reactor r)).loops.count (.reactor r) ≤ 1 := hone r
  rw [enter_loops h.fresh, List.count_cons_self] at h2
  have h1 : 0 < S.loops.count (.reactor r) := List.count_pos_iff.mpr hmem
  omega

theorem refused_iff {S : Thread} {r : Nat} (huser : UserCode S) :
    Refused S r ↔ S.g_reactor = some r := by
  unfold Refused
  rw [step_run_reactor huser]
  constructor
  · rintro ⟨T, hT, _, _, _, hpc⟩
    by_contra hr
    obtain rfl := Option.some.inj hT
    rw [cfiber_reactor_run, if_neg hr] at hpc
    have hloop : S.pc = .loop S.calls := hpc.symm
    rcases huser with h | ⟨f, h⟩
    · simp [h] at hloop
    · simp [h] at hloop
  · intro hr
    refine ⟨_, rfl, ?_⟩
    unfold cfiber_reactor_run
    rw [if_pos hr]
    exact ⟨rfl, rfl, rfl, rfl⟩

/-- **Properly nested.**  The refused reactor is the innermost. -/
theorem Nested.refused_iff_innermost {S : Thread} {h₀ : Option Hook} (h : Nested S h₀) {r : Nat}
    (huser : UserCode S) : Refused S r ↔ innermost_reactor S.loops = some r := by
  rw [refused_iff huser, h.reactor]

/-- **Re-entry is refused for the current reactor only.**  A call on a running reactor is refused
exactly when that reactor is the current one; after a run in which every switch was the innermost
loop's and no loop was entered twice, that is the innermost reactor of the stack.  No reactor has
two activations at any point of a run exactly when each call on a running reactor is on the current
one. -/
theorem reentry_refused_iff {h₀ : Option Hook} {as : List Action} {S : Thread}
    (hrun : exec step (start h₀) as = some S) :
    (∀ r, UserCode S → .reactor r ∈ S.loops → (Refused S r ↔ S.g_reactor = some r)) ∧
      (exec (under Innermost (under NoReentry step)) (start h₀) as = some S →
        ∀ r, UserCode S → .reactor r ∈ S.loops →
          (Refused S r ↔ innermost_reactor S.loops = some r)) ∧
      (Along step OneActivation (start h₀) as ↔
        exec (under Recognised step) (start h₀) as = some S) := by
  refine ⟨fun r huser _ => refused_iff huser, ?_, ?_⟩
  · intro hnested r huser _
    exact (nested_of_run hnested).refused_iff_innermost huser
  · have hstart : Distinct (start h₀) :=
      ⟨by simp [start], by simp [OneActivation, Thread.loops, start]⟩
    apply along_iff_under Distinct _ _ _ hstart hrun
    · intro S h
      exact h.once
    · intro S a T h hrec hstep
      exact h.step hrec hstep
    · intro S a T h hrec hstep
      exact h.reentered hrec hstep

/-- A fiber of a reactor runs a scheduler, whose fiber calls for the reactor again. -/
def refused_run : List Action :=
  [.spawn (.reactor 0) true, .run (.reactor 0), .turn .interrupted, .turn .interrupted,
    .spawn (.sched 0) true, .run (.sched 0), .turn .interrupted]

theorem reentry_refused_through_scheduler :
    ∃ S, exec step (start none) refused_run = some S ∧ S.loops = [.sched 0, .reactor 0] ∧
      Refused S 0 := by
  have h : (exec step (start none) refused_run).map
      (fun S => (S.pc, S.loops, S.g_reactor)) =
      some (.fiber 1, [.sched 0, .reactor 0], some 0) := by
    decide
  obtain ⟨S, hrun, heq⟩ := Option.map_eq_some_iff.mp h
  obtain ⟨hpc, hloops, hr⟩ : S.pc = .fiber 1 ∧ S.loops = [.sched 0, .reactor 0] ∧
      S.g_reactor = some 0 := by
    simpa using heq
  have hmem : Loop.reactor 0 ∈ S.loops := by simp [hloops]
  exact ⟨S, hrun, hloops, ((reentry_refused_iff hrun).1 0 (.inr ⟨1, hpc⟩) hmem).mpr hr⟩

/-- Fiber 0 of reactor 0, which has another fiber 1, runs reactor 1 with a fiber 2. -/
def chain_run : List Action :=
  [.spawn (.reactor 0) true, .spawn (.reactor 0) true, .run (.reactor 0), .turn .interrupted,
    .turn .interrupted, .spawn (.reactor 1) true, .run (.reactor 1), .turn .interrupted,
    .turn .interrupted]

/-- Fiber 2 runs reactor 0 again: the second activation takes over `current` and the loop's context,
and fiber 0 is lost to the first. -/
theorem reentered_below :
    ∃ S T, exec (under Innermost (under NoReentry step)) (start none) chain_run = some S ∧
      S.pc = .fiber 2 ∧ S.loops = [.reactor 1, .reactor 0] ∧ ¬ Refused S 0 ∧
      (S.records (.reactor 0)).current = some 0 ∧ (S.records (.reactor 0)).ctx = .loop 0 ∧
      exec step S [.run (.reactor 0), .turn .interrupted, .turn .interrupted] = some T ∧
      T.loops = [.reactor 0, .reactor 1, .reactor 0] ∧
      (T.records (.reactor 0)).current = some 1 ∧ (T.records (.reactor 0)).ctx = .loop 2 := by
  have hS : (exec (under Innermost (under NoReentry step)) (start none) chain_run).map
      (fun S => (S.pc, S.loops, S.g_reactor, (S.records (.reactor 0)).current,
        (S.records (.reactor 0)).ctx)) =
      some (.fiber 2, [.reactor 1, .reactor 0], some 1, some 0, .loop 0) := by
    decide
  have hT : ((exec (under Innermost (under NoReentry step)) (start none) chain_run).bind fun S =>
      exec step S [.run (.reactor 0), .turn .interrupted, .turn .interrupted]).map
      (fun T => (T.loops, (T.records (.reactor 0)).current, (T.records (.reactor 0)).ctx)) =
      some ([.reactor 0, .reactor 1, .reactor 0], some 1, .loop 2) := by
    decide
  obtain ⟨S, hrun, heq⟩ := Option.map_eq_some_iff.mp hS
  rw [hrun] at hT
  obtain ⟨T, hrun', heq'⟩ := Option.map_eq_some_iff.mp hT
  obtain ⟨hpc, hloops, hr, hcur, hctx⟩ : S.pc = .fiber 2 ∧
      S.loops = [.reactor 1, .reactor 0] ∧ S.g_reactor = some 1 ∧
      (S.records (.reactor 0)).current = some 0 ∧ (S.records (.reactor 0)).ctx = .loop 0 := by
    simpa using heq
  obtain ⟨hloops', hcur', hctx'⟩ : T.loops = [.reactor 0, .reactor 1, .reactor 0] ∧
      (T.records (.reactor 0)).current = some 1 ∧ (T.records (.reactor 0)).ctx = .loop 2 := by
    simpa using heq'
  have hnot : ¬ Refused S 0 := by
    rw [refused_iff (.inr ⟨2, hpc⟩), hr]
    simp
  exact ⟨S, T, hrun, hpc, hloops, hnot, hcur, hctx, hrun', hloops', hcur', hctx'⟩

end CFiber.Nest
