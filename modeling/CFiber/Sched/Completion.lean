/-
  CFiber.Sched.Completion — `cfiber_scheduler_run` returns, and when.

  The loop has no bound of its own: it goes on while fibers are left.  What it promises is that it
  adds nothing to what they do: if every fiber returns after some number of steps of its own, and
  the run spawns no more than some number of fibers, the run returns after two steps of the system
  for each step of a fiber, one for the step and one for the loop's turn.

    • `drive_budget`  — every step of the run uses some of that budget;
    • `run_completes` — the run returns, and every fiber has returned and was freed.
-/
import CFiber.Sched.RoundRobin
import Mathlib.Algebra.BigOperators.Group.Finset.Basic
import Mathlib.Algebra.Order.BigOperators.Group.Finset

namespace CFiber.Sched

open CFiber.Base CFiber.Memory

variable {T : Target} {γ : Type} {B : Backing γ} {out : γ → List Region} {good : γ → Prop}
  {S : Sys T γ} {q : List Nat} {prog : Program} {limit : Nat → Nat} {N : Nat}

/-! ## §1. The budget. -/

/-- A yield or a spawn by fiber `f`. -/
def Event.isBy (f : Nat) : Event → Bool
  | .yield g => g = f
  | .spawn caller _ => caller = some f
  | _ => false

/-- The steps that fiber `f` has taken before it returns. -/
def taken (es : List Event) (f : Nat) : Nat := es.countP (Event.isBy f)

/-- The steps that fiber `f` may still take, its return included. -/
def due (limit : Nat → Nat) (es : List Event) (f : Nat) : Nat :=
  (limit f - taken es f) + (if .ret f ∈ es then 0 else 1)

/-- Two steps of the system for each step of a fiber, and the loop's turn before the first. -/
def budget (limit : Nat → Nat) (N : Nat) (S : Sys T γ) : Nat :=
  2 * (∑ f ∈ Finset.range N, due limit S.history f) + (if S.pc = .loop then 1 else 0)

/-- Every fiber returns once it has taken as many steps as `limit` says. -/
def Returns (limit : Nat → Nat) (prog : Program) : Prop :=
  ∀ es f, limit f ≤ taken es f → prog es f = .ret

theorem due_snoc_le (limit : Nat → Nat) (es : List Event) (e : Event) (f : Nat) :
    due limit (es ++ [e]) f ≤ due limit es f := by
  have htaken : taken es f ≤ taken (es ++ [e]) f := by
    unfold taken
    rw [List.countP_append]
    omega
  have hret : .ret f ∈ es → .ret f ∈ es ++ [e] := fun h => List.mem_append_left _ h
  unfold due
  split
  case isTrue => omega
  case isFalse hnot =>
    rw [if_neg fun h => hnot (hret h)]
    omega

/-- A step of fiber `f` is paid for by its own share. -/
theorem budget_snoc {es : List Event} {e : Event} {f : Nat} (hf : f < N)
    (hdue : due limit (es ++ [e]) f < due limit es f) :
    (∑ g ∈ Finset.range N, due limit (es ++ [e]) g) + 1 ≤ ∑ g ∈ Finset.range N, due limit es g :=
  Finset.sum_lt_sum (fun g _ => due_snoc_le limit es e g) ⟨f, Finset.mem_range.mpr hf, hdue⟩

/-- A fiber that goes on has not used its limit up. -/
theorem due_step {es : List Event} {e : Event} {f : Nat} (hret : Returns limit prog)
    (hgoes : prog es f ≠ .ret) (he : e.isBy f = true) (hnot : e ≠ .ret f) :
    due limit (es ++ [e]) f < due limit es f := by
  have hlt : taken es f < limit f := by
    by_contra hle
    exact hgoes (hret es f (by omega))
  have htaken : taken (es ++ [e]) f = taken es f + 1 := by
    simp [taken, he]
  have hmem : .ret f ∈ es ++ [e] ↔ .ret f ∈ es := by
    rw [List.mem_append, List.mem_singleton]
    exact or_iff_left (Ne.symm hnot)
  unfold due
  simp only [hmem, htaken]
  omega

theorem due_ret {es : List Event} {f : Nat} (hnot : .ret f ∉ es) :
    due limit (es ++ [.ret f]) f < due limit es f := by
  have htaken : taken (es ++ [.ret f]) f = taken es f := by
    simp [taken, Event.isBy]
  unfold due
  rw [htaken, if_pos (by simp), if_neg hnot]
  omega

/-! ## §2. Every step uses some of it. -/

/-- A fiber that runs has not returned. -/
theorem Inv.ret_not_mem (h : Inv out good S q) {t : Nat} (ht : t ∈ unreturned S.s q) :
    .ret (S.s.mem.entry t) ∉ S.history := by
  intro hmem
  have hstage : Stage.returned ∈ stages S.events (S.s.mem.entry t) := by
    refine List.mem_filterMap.mpr ⟨_, (List.mem_filter.mp hmem).1, ?_⟩
    simp [Event.stage]
  rw [h.lives.running t ht] at hstage
  simp at hstage

/-- **Every step of the run brings the budget down.** -/
theorem drive_budget (H : Honest T B out good) (h : Inv out good S q) (hret : Returns limit prog)
    (hN : S.spawned ≤ N) (hpc : S.pc ≠ .host) :
    budget limit N (drive B prog S) < budget limit N S := by
  have hplace := h.pc
  unfold PcOk at hplace
  cases hp : S.pc with
  | host => exact absurd hp hpc
  | trap =>
      rw [hp] at hplace
      exact hplace.elim
  | loop =>
      rw [drive_loop hp]
      have hhist : (turn B S).history = S.history ∧ (turn B S).pc ≠ .loop := by
        rcases h.turn H hp with ⟨-, -, hpc', -, -, he, -⟩ | ⟨t, q', -, -, -, hpc', -, -, -, he, -⟩
        · exact ⟨history_of_freed he, by simp [hpc']⟩
        · exact ⟨history_of_freed he, by simp [hpc']⟩
      unfold budget
      rw [hhist.1, if_pos hp, if_neg hhist.2]
      omega
  | fiber t =>
      rw [hp] at hplace
      have ht : t ∈ unreturned S.s q := by simp [unreturned, hplace.1]
      have hf : S.s.mem.entry t < N :=
        Nat.lt_of_lt_of_le (h.lives.old t (mem_tasks_of_unreturned ht)) hN
      -- whatever the step is, it adds one event, and the fiber's share pays for it
      obtain ⟨e, hhist, hdue⟩ : ∃ e, (drive B prog S).history = S.history ++ [e] ∧
          due limit (S.history ++ [e]) (S.s.mem.entry t) < due limit S.history (S.s.mem.entry t) := by
        cases hprog : prog S.history (S.s.mem.entry t) with
        | yield =>
            rw [drive_yield hp hprog]
            refine ⟨.yield (S.s.mem.entry t), history_of_snoc S _ rfl rfl, ?_⟩
            exact due_step hret (by simp [hprog]) (by simp [Event.isBy]) (by simp)
        | spawn =>
            rw [drive_spawn hp hprog]
            have hrun : S.running = some (S.s.mem.entry t) := by
              unfold Sys.running
              rw [hp]
            have hdue : ∀ made, due limit (S.history ++ [.spawn S.running made])
                (S.s.mem.entry t) < due limit S.history (S.s.mem.entry t) := by
              intro made
              exact due_step hret (by simp [hprog]) (by simp [Event.isBy, hrun]) (by simp)
            rcases h.spawn H with ⟨q', -, -, -, -, -, he, -⟩ | ⟨s', -, -, -, heq⟩
            · exact ⟨_, history_of_snoc S _ he rfl, hdue _⟩
            · refine ⟨.spawn S.running none, history_of_snoc S _ ?_ rfl, hdue _⟩
              rw [heq]
        | ret =>
            rw [drive_ret hp hprog]
            exact ⟨.ret (S.s.mem.entry t), history_of_snoc S _ rfl rfl, due_ret (h.ret_not_mem ht)⟩
      have hsum := budget_snoc hf hdue
      unfold budget
      rw [hhist, hp]
      simp only [reduceCtorEq, if_false]
      split <;> omega

/-! ## §3. The run returns. -/

theorem Inv.execution (H : Honest T B out good) (h : Inv out good S q) (hpc : S.pc = .host)
    (hq : Queued S q) (n : Nat) : ∃ q', Inv out good (execution B prog S n) q' := by
  obtain ⟨grant, hgrant⟩ := exists_agrees B prog S
  obtain ⟨m, q', h'⟩ := h.paced H hpc hq hgrant n
  exact ⟨q', h'.inv⟩

/-- **`cfiber_scheduler_run` returns** when each fiber returns after at most `limit` steps and no
more than `N` are ever spawned, within twice as many steps as they can take; if `N` is below
`2 ^ 32`, all of them have then returned and were freed, and nothing is left. -/
theorem run_completes (H : Honest T B out good) {sizeof_task : Nat} {config : Config}
    {m : TaskMem} {c : γ} {s : Scheduler T γ}
    (hinit : cfiber_scheduler_init_ext T sizeof_task config m c = some s) (hg : good c)
    (hout : out c = []) {actions : List Action}
    (hrun : exec (step B) (boot s) actions = some S) (hhost : S.pc = .host)
    (hret : Returns limit prog) (hN : ∀ n, (execution B prog S n).spawned ≤ N) :
    ∃ n ≤ 2 * (∑ f ∈ Finset.range N, (limit f + 1)) + 1,
      (execution B prog S n).pc = .host ∧
        (N < 2 ^ 32 → Finished (execution B prog S n)) := by
  obtain ⟨q, h, hq⟩ := queued_run H hinit hg hout hrun
  have hinv : ∀ n, ∃ q', Inv out good (execution B prog S n) q' := h.execution H hhost hq
  obtain ⟨n, hn, hend⟩ := orbit_ends (f := drive B prog) (s := { S with pc := .loop })
    (P := fun S' => S'.pc = .host) (budget limit N) (by
      intro n hpc
      rw [Function.iterate_succ_apply']
      obtain ⟨q', h'⟩ := hinv n
      exact drive_budget H h' hret (hN n) hpc)
  refine ⟨n, Nat.le_trans hn ?_, hend, ?_⟩
  · have hshare : ∀ f ∈ Finset.range N, due limit S.history f ≤ limit f + 1 := by
      intro f _
      unfold due
      split <;> omega
    have hsum := Finset.sum_le_sum hshare
    show 2 * (∑ f ∈ Finset.range N, due limit S.history f) + (if Pc.loop = Pc.loop then 1 else 0) ≤ _
    rw [if_pos rfl]
    omega
  · intro hlt
    have htest : Tested B prog S := by
      rintro n - ⟨hpos, hdvd⟩
      have hle : (execution B prog S n).unfinished ≤ (execution B prog S n).spawned := Nat.sub_le _ _
      have := Nat.le_of_dvd hpos hdvd
      have := hN n
      omega
    obtain ⟨grant, hgrant⟩ := exists_agrees B prog S
    have hzero := h.ended H hhost hq htest hgrant n hend
    obtain ⟨q', h'⟩ := hinv n
    rw [h'.unfinished_eq, unreturned_length] at hzero
    obtain rfl : q' = [] := List.eq_nil_of_length_eq_zero (by omega)
    exact h'.finished hend

/-- Each fiber takes one step and then returns. -/
def one_step : Program := fun es f => if taken es f = 0 then .yield else .ret

theorem turn_spawned (B : Backing γ) (S : Sys T γ) : (turn B S).spawned = S.spawned := by
  unfold turn
  split
  · rfl
  · split
    · split <;> rfl
    · rfl

/-- Programs that do not spawn leave the number of fibers as it is. -/
theorem execution_spawned (B : Backing γ) (S : Sys T γ) (hno : ∀ es f, prog es f ≠ .spawn)
    (n : Nat) : (execution B prog S n).spawned = S.spawned := by
  refine orbit_stable (f := drive B prog) (P := fun S' => S'.spawned = S.spawned)
    (fun S' hS' => ?_) (Nat.zero_le n) rfl
  rw [← hS']
  cases hpc : S'.pc with
  | host => rw [drive_host hpc]
  | loop => rw [drive_loop hpc, turn_spawned]
  | trap => simp [drive, next_action, hpc]
  | fiber t =>
      cases hprog : prog S'.history (S'.s.mem.entry t) with
      | yield => rw [drive_yield hpc hprog]; rfl
      | spawn => exact absurd hprog (hno _ _)
      | ret => rw [drive_ret hpc hprog]; rfl

theorem run_completes_bump : ∃ s S, small = some s ∧
    exec (step bump) (boot s) [.spawn, .spawn] = some S ∧ S.pc = .host ∧
      ∃ n ≤ 2 * (∑ f ∈ Finset.range 2, ((fun _ => 1) f + 1)) + 1,
        (execution bump one_step S n).pc = .host ∧
          (2 < 2 ^ 32 → Finished (execution bump one_step S n)) := by
  have hsome : (small.bind fun s => (exec (step bump) (boot s) [.spawn, .spawn]).filter
      fun S => S.pc = .host ∧ S.spawned = 2).isSome = true := by
    decide +kernel
  obtain ⟨S, hS⟩ := Option.isSome_iff_exists.mp hsome
  obtain ⟨s, hs, hfilter⟩ := Option.bind_eq_some_iff.mp hS
  obtain ⟨hrun, hhost⟩ := Option.filter_eq_some_iff.mp hfilter
  obtain ⟨hhost, hspawned⟩ : S.pc = .host ∧ S.spawned = 2 := by simpa using hhost
  have hret : Returns (fun _ => 1) one_step := by
    intro es f hle
    have hpos : taken es f ≠ 0 := Nat.one_le_iff_ne_zero.mp hle
    exact if_neg hpos
  have hno : ∀ es f, one_step es f ≠ .spawn := by
    intro es f
    unfold one_step
    split <;> simp
  refine ⟨s, S, hs, hrun, hhost, run_completes bump_honest hs
    ⟨rfl, fun _ h => absurd h List.not_mem_nil⟩ rfl hrun hhost hret fun n => ?_⟩
  rw [execution_spawned bump S hno n, hspawned]

end CFiber.Sched
