/-
  CFiber.Ev.Quiescence — what is left when `cfiber_reactor_run` returns 0.

  Busy fibers are those that were spawned and have not returned: `launched` and `completed` are the
  steps that change their number, and `active_balance` is the balance of a whole run.  The loop is left
  with 0 only where `active` reads zero or less; below `2 ^ 31` busy fibers it reads their number, so
  every fiber ever spawned has returned by then.

  `Clean` is the state the reactor is left in: no list holds a fiber, no deadline is set, no
  descriptor is held, no command means anything, every stack is back in the pool and the kernel
  watches nothing.

  Main result: `run_clean`, over every run of the reactor.
-/
import CFiber.Ev.Teardown
import CFiber.Ev.Registrations

namespace CFiber.Ev

open CFiber.Base CFiber.Memory CFiber.Stacks

variable {T : Target} {γ σ κ δ : Type}

/-! ## §1. Fibers spawned and fibers returned. -/

/-- A spawn that succeeded. -/
def launched (_ : Sys T γ σ κ) (a : Action δ) (S' : Sys T γ σ κ) : Nat :=
  match a, S'.ret with
  | .spawn, some (.spawned _) => 1
  | _, _ => 0

/-- An entry function that returned. -/
def completed (_ : Sys T γ σ κ) (a : Action δ) (_ : Sys T γ σ κ) : Nat :=
  match a with
  | .finish => 1
  | _ => 0

/-- The fibers a move starts. -/
def Move.starts : Move → Nat
  | .spawn _ _ _ => 1
  | _ => 0

/-- The fibers it ends. -/
def Move.ends : Move → Nat
  | .finish _ => 1
  | _ => 0

variable {L : Libc γ} {P : StackPool σ} {K : Kernel κ δ}
variable {out : γ → List Region} {good : γ → Prop}
variable {S S' : Sys T γ σ κ} {q q' : List Nat} {a : Action δ} {m : Move} {f : Nat}

/-- The loop takes fibers off the live list, and puts none on it. -/
theorem turn_alive (h : turn L P K S = some S') : S'.alive.length ≤ S.alive.length := by
  unfold turn at h
  split at h
  case h_3 =>
    -- the completed fiber is reaped
    obtain rfl := Option.some.inj h
    cases hz : S.r.zombie with
    | none => exact Nat.le_refl _
    | some z =>
        exact List.length_erase_le
  all_goals
    repeat' split at h
    all_goals cases h
    all_goals exact Nat.le_refl _

/-- Only a spawn makes the live fibers more. -/
theorem alive_shrinks (ha : a ≠ .spawn) (h : step L P K S a = some S') :
    S'.alive.length ≤ S.alive.length := by
  have hcalled : ∀ (f : Nat) (e : Option Nat) (x : Option EvStatus × Reactor T γ σ κ),
      (called S f e x).alive = S.alive := by
    rintro f e ⟨_ | st, r⟩ <;> rfl
  cases a with
  | spawn => exact absurd rfl ha
  | turn => exact turn_alive h
  | post c => cases h; exact Nat.le_refl _
  | tick dt => cases h; exact Nat.le_refl _
  | other d =>
      obtain ⟨k, -, rfl⟩ := Option.map_eq_some_iff.mp h
      exact Nat.le_refl _
  | drained =>
      simp only [step] at h
      split at h <;> cases h
      exact Nat.le_refl _
  | poll d =>
      simp only [step] at h
      split at h
      · obtain ⟨⟨res, k⟩, -, hx⟩ := Option.bind_eq_some_iff.mp h
        cases res <;> simp only [polled] at hx <;> split_ifs at hx <;> cases hx <;> exact Nat.le_refl _
      · cases h
  | wait fd dir t =>
      simp only [step, act] at h
      split at h <;> cases h
      exact Nat.le_of_eq (congrArg List.length (hcalled _ _ _))
  | sleep ns =>
      simp only [step, act] at h
      split at h <;> cases h
      exact Nat.le_of_eq (congrArg List.length (hcalled _ _ _))
  | wait_async t =>
      simp only [step, act] at h
      split at h <;> cases h
      exact Nat.le_of_eq (congrArg List.length (hcalled _ _ _))
  | _ =>
      simp only [step, act] at h
      split at h <;> cases h
      all_goals exact Nat.le_refl _

/-! ## §2. The two steps that change `active`. -/

/-- **The move that ends a fiber** is made by its return. -/
theorem Does.finish_iff (hok : Ok out good S q) (hd : Does P K out good S a S' m q q')
    (h : step L P K S a = some S') : (∃ f, m = .finish f) ↔ a = .finish := by
  constructor
  · rintro ⟨f, rfl⟩
    have hrun : S.r.mem.state f = .FB_RUNNING := hd.moved.pre f rfl
    obtain ⟨e, hpc⟩ := hok.pc_of_running hrun
    have hcur : S.r.current = some f := (hok.core.roster.running f).mp hrun
    have hidle : S.r.zombie = none := by
      have hctl := hok.control
      rw [hpc] at hctl
      exact hctl.2
    have hz : S'.r.zombie = some f :=
      (hd.ok.core.roster.dead f).mp (congrArg FiberView.state (hd.moved.self f rfl))
    have hkeep : S'.r.zombie ≠ S.r.zombie := by
      rw [hz, hidle]
      simp
    -- with a zombie, control is back in the loop
    have hleft : S'.pc ≠ S.pc := by
      intro hsame
      have hctl := hd.ok.control
      rw [hsame, hpc] at hctl
      exact absurd (hz.symm.trans hctl.2) (by simp)
    cases a with
    | finish => rfl
    | wait fd dir t =>
        simp only [step, hpc, act] at h
        obtain rfl := Option.some.inj h
        rcases cfiber_ev_wait_spec (L := L) K hok.core hcur fd dir t with
          ⟨s', heq, hs, -⟩ | ⟨s', heq, hs, -⟩ <;> rw [heq] at hkeep <;> exact absurd hs.zombie hkeep
    | sleep ns =>
        simp only [step, hpc, act] at h
        obtain rfl := Option.some.inj h
        rcases cfiber_ev_sleep_spec (L := L) hok.core hcur ns with
          ⟨s', heq, hs, -⟩ | ⟨s', heq, hs, -⟩ <;> rw [heq] at hkeep <;> exact absurd hs.zombie hkeep
    | wait_async t =>
        simp only [step, hpc, act] at h
        obtain rfl := Option.some.inj h
        rcases cfiber_ev_wait_async_spec (L := L) hok.core hcur t with
          ⟨-, heq⟩ | ⟨-, ⟨s', heq, hs, -⟩ | ⟨s', heq, hs, -⟩⟩ <;> rw [heq] at hkeep
        · exact absurd rfl hkeep
        · exact absurd hs.zombie hkeep
        · exact absurd hs.zombie hkeep
    | yield =>
        simp only [step, hpc, act] at h
        obtain rfl := Option.some.inj h
        exact absurd (cfiber_ev_yield_spec (L := L) hok.core hcur).2.2.2.2.2.1 hkeep
    | post c => exact absurd (foreign_pc rfl h).1 hleft
    | tick dt => exact absurd (foreign_pc rfl h).1 hleft
    | other d => exact absurd (foreign_pc rfl h).1 hleft
    | spawn =>
        simp only [step, hpc, act] at h
        obtain rfl := Option.some.inj h
        exact absurd (spawned_pc S _) hleft
    | turn => simp [step, turn, hpc] at h
    | poll d => simp [step, hpc] at h
    | drained => simp [step, hpc] at h
    | _ =>
        simp only [step, hpc, act] at h
        obtain rfl := Option.some.inj h
        exact absurd hpc.symm hleft
  · rintro rfl
    obtain ⟨f, e, hpc⟩ : ∃ f e, S.pc = .fiber f e := by
      cases hpc : S.pc <;> simp_all [step]
    have hctl := hok.control
    rw [hpc] at hctl
    have hlive : f ∈ S.alive := (hok.core.running hctl.1).2.1
    have hrun : (view S.r f).state = .FB_RUNNING := (hok.core.running hctl.1).1
    have hdead : (view S'.r f).state = .FB_ZOMBIE := by
      simp only [step, hpc, act] at h
      obtain rfl := Option.some.inj h
      show (view (reactor_return_hook S.r) f).state = .FB_ZOMBIE
      rw [(reactor_return_hook_spec (L := L) hok.core hctl.1 hctl.2).2.1, Function.update_self]
    have hself : m.fiber = some f := by
      by_contra hne
      rw [hd.moved.others f hlive hne, hrun] at hdead
      exact absurd hdead (by simp)
    have hpre := hd.moved.pre f hself
    rw [hd.moved.self f hself] at hdead
    cases m with
    | finish g => exact ⟨g, rfl⟩
    | quiet => simp [Move.fiber] at hself
    | _ => simp_all [Move.view, FiberView.woken, FiberView.parked, FiberView.spawned]

/-- **The move that starts a fiber** is made by a spawn that succeeds. -/
theorem Does.launched_eq (H : LibcOk T L out good) (hok : Ok out good S q)
    (hd : Does P K out good S a S' m q q') (h : step L P K S a = some S') :
    launched S a S' = m.starts := by
  by_cases hm : ∃ f gen stack, m = .spawn f gen stack
  · obtain ⟨f, gen, stack, rfl⟩ := hm
    obtain rfl : a = .spawn := by
      by_contra hne
      have hlen := alive_shrinks hne h
      rw [hd.moved.alive] at hlen
      exact absurd hlen (by simp [Move.alive])
    simp only [launched, hd.label.of_spawn f gen stack rfl, Move.starts]
  · have hzero : m.starts = 0 := by
      cases m with
      | spawn f gen stack => exact absurd ⟨f, gen, stack, rfl⟩ hm
      | _ => rfl
    rw [hzero]
    by_contra hne
    obtain rfl : a = .spawn := by
      by_contra hsp
      cases a <;> simp_all [launched]
    -- the spawn would have made the list longer
    have hspawned : S' = spawned S (spawn_locked L P S.r) := by
      cases hpc : S.pc <;> simp only [step, hpc, act] at h
      case host => exact (Option.some.inj h).symm
      case fiber f e => exact (Option.some.inj h).symm
      all_goals cases h
    have hle : S'.alive.length ≤ S.alive.length := by
      rw [hd.moved.alive]
      cases m with
      | spawn f gen stack => exact absurd ⟨f, gen, stack, rfl⟩ hm
      | reap f => exact List.length_erase_le
      | _ => exact Nat.le_refl _
    rcases spawn_locked_spec H P hok.core hok.pool with ⟨s', heq, -⟩ | ⟨f, s', heq, -⟩
    · rw [heq] at hspawned
      obtain rfl := hspawned
      exact hne rfl
    · rw [heq] at hspawned
      obtain rfl := hspawned
      exact absurd hle (by simp [spawned])

/-- **The move that ends a fiber**, counted. -/
theorem Does.completed_eq (hok : Ok out good S q) (hd : Does P K out good S a S' m q q')
    (h : step L P K S a = some S') : completed S a S' = m.ends := by
  have hiff := hd.finish_iff hok h
  by_cases hm : ∃ f, m = .finish f
  · obtain rfl := hiff.mp hm
    obtain ⟨f, rfl⟩ := hm
    rfl
  · have hends : m.ends = 0 := by
      cases m with
      | finish f => exact absurd ⟨f, rfl⟩ hm
      | _ => rfl
    have hne : a ≠ .finish := fun e => hm (hiff.mpr e)
    rw [hends]
    cases a with
    | finish => exact absurd rfl hne
    | _ => rfl

/-! ## §3. The balance of a run. -/

/-- The other fibers keep their states. -/
theorem Moved.state_eq (hm : Moved out P S S' m q q') {g : Nat} (hg : g ∈ S.alive)
    (hne : m.fiber ≠ some g) : S'.r.mem.state g = S.r.mem.state g :=
  congrArg FiberView.state (hm.others g hg hne)

/-- A move that keeps the list changes the state of its own fiber at most. -/
theorem Moved.census_eq (hok : Ok out good S q) (hm : Moved out P S S' m q q')
    (hself : m.fiber = some f) (hfree : S.r.mem.state f ≠ .FB_FREE)
    (halive : m.alive S.alive = S.alive) :
    census isActive S'.r.mem.state S'.alive = census isActive S.r.mem.state S.alive
      - weight isActive (S.r.mem.state f) + weight isActive (m.view (view S.r f)).state := by
  have hf : f ∈ S.alive := hok.core.mem_live hfree
  rw [hm.alive, halive, ← census_update hok.core.roster.nodup hf isActive]
  apply census_congr
  intro g hg
  by_cases hgf : g = f
  · subst hgf
    rw [Function.update_self]
    exact congrArg FiberView.state (hm.self g hself)
  · have hother : m.fiber ≠ some g := by
      rw [hself]
      intro e
      exact hgf (Option.some.inj e).symm
    rw [Function.update_of_ne hgf]
    exact hm.state_eq hg hother

/-- **One move**: what it ends leaves the busy fibers, what it starts joins them. -/
theorem Moved.balance (hok : Ok out good S q) (hm : Moved out P S S' m q q') :
    m.ends + busy S' = busy S + m.starts := by
  have hS := busy_eq S
  have hS' := busy_eq S'
  -- a fiber that was active and is
  have hkeep : ∀ f, m.fiber = some f → isActive (view S.r f).state = true →
      m.alive S.alive = S.alive → isActive (m.view (view S.r f)).state = true →
      busy S' = busy S := by
    intro f hself hbefore halive hafter
    have hfree : S.r.mem.state f ≠ .FB_FREE := by
      intro e
      have hv : (view S.r f).state = .FB_FREE := e
      rw [hv] at hbefore
      exact absurd hbefore (by decide)
    have hcensus := hm.census_eq hok hself hfree halive
    have hone : weight isActive (S.r.mem.state f) = 1 := if_pos hbefore
    have hone' : weight isActive (m.view (view S.r f)).state = 1 := if_pos hafter
    omega
  cases m with
  | quiet =>
      have hcensus : census isActive S'.r.mem.state S'.alive =
          census isActive S.r.mem.state S.alive := by
        rw [hm.alive]
        exact census_congr _ fun g hg => hm.state_eq hg (by simp [Move.fiber])
      simp only [Move.ends, Move.starts]
      omega
  | spawn f gen stack =>
      have hpre : S.r.mem.state f = .FB_FREE := hm.pre f rfl
      have hready : S'.r.mem.state f = .FB_READY := congrArg FiberView.state (hm.self f rfl)
      have hcensus : census isActive S'.r.mem.state S'.alive =
          census isActive S.r.mem.state S.alive + 1 := by
        rw [hm.alive]
        show census isActive S'.r.mem.state (f :: S.alive) = _
        rw [census_cons, hready]
        congr 1
        refine census_congr _ fun g hg => hm.state_eq hg ?_
        intro e
        obtain rfl := Option.some.inj e
        exact (hok.core.roster.live f).mp hg hpre
      simp only [Move.ends, Move.starts]
      omega
  | finish f =>
      have hpre : S.r.mem.state f = .FB_RUNNING := hm.pre f rfl
      have hcensus := hm.census_eq hok rfl (by rw [hpre]; simp) rfl
      have hone : weight isActive (S.r.mem.state f) = 1 := by rw [hpre]; rfl
      have hnone : weight isActive (Move.view (.finish f) (view S.r f)).state = 0 := rfl
      simp only [Move.ends, Move.starts]
      omega
  | reap f =>
      have hpre : S.r.mem.state f = .FB_ZOMBIE := hm.pre f rfl
      have hf : f ∈ S.alive := hok.core.mem_live (by rw [hpre]; simp)
      have hcensus : census isActive S'.r.mem.state S'.alive =
          census isActive S.r.mem.state S.alive := by
        rw [hm.alive]
        show census isActive S'.r.mem.state (S.alive.erase f) = _
        have hsame : ∀ g ∈ S.alive.erase f, S'.r.mem.state g = S.r.mem.state g := by
          intro g hg
          refine hm.state_eq (List.mem_of_mem_erase hg) ?_
          intro e
          obtain rfl := Option.some.inj e
          exact hok.core.roster.nodup.not_mem_erase hg
        rw [census_congr _ hsame, census_erase hf, hpre]
        exact Int.sub_zero _
      simp only [Move.ends, Move.starts]
      omega
  | permit f =>
      obtain ⟨hfree, hdead, -⟩ := hm.pre f rfl
      have hact : isActive (view S.r f).state = true := by
        cases hst : (view S.r f).state <;> simp_all [isActive]
      have := hkeep f rfl hact rfl hact
      simp only [Move.ends, Move.starts]
      omega
  | consume f =>
      have hrun : (view S.r f).state = .FB_RUNNING := (hm.pre f rfl).1
      have hact : isActive (view S.r f).state = true := by rw [hrun]; rfl
      have := hkeep f rfl hact rfl hact
      simp only [Move.ends, Move.starts]
      omega
  | _ f =>
      have hst := hm.pre f rfl
      have hact : isActive (view S.r f).state = true := by
        simp only [Move.pre] at hst
        rw [hst]
        rfl
      have := hkeep f rfl hact rfl rfl
      simp only [Move.ends, Move.starts]
      omega

/-- **The balance of a run**: the fibers spawned so far have returned or are busy. -/
theorem active_balance (H : LibcOk T L out good) (hok : Ok out good S q) {as : List (Action δ)}
    (hrun : exec (step L P K) S as = some S') :
    tally (step L P K) completed S as + busy S' = busy S + tally (step L P K) launched S as := by
  have hstep : ∀ (s : Sys T γ σ κ) (a : Action δ) (s' : Sys T γ σ κ), (∃ q, Ok out good s q) →
      step L P K s a = some s' →
      (∃ q, Ok out good s' q) ∧ completed s a s' + busy s' = busy s + launched s a s' := by
    rintro s a s' ⟨q, hs⟩ h
    obtain ⟨m, q', hd⟩ := step_does H hs h
    rw [hd.completed_eq hs h, hd.launched_eq H hs h]
    exact ⟨⟨q', hd.ok⟩, hd.moved.balance hs⟩
  exact exec_balance (fun s => ∃ q, Ok out good s q) (fun _ => True) busy
    (fun s a s' hs _ _ h => hstep s a s' hs h) ⟨q, hok⟩
    (along_of_inv (fun s => ∃ q, Ok out good s q) (fun _ _ => trivial)
      (fun s a s' hs h => (hstep s a s' hs h).1) ⟨q, hok⟩ as) hrun

/-! ## §4. The loop's return. -/

/-- **Nothing is left.** -/
structure Clean (K : Kernel κ δ) (s : Reactor T γ σ κ) : Prop where
  fibers : ∀ f, s.mem.state f = .FB_FREE
  live : s.live_head = none
  queue : s.ready_head = none ∧ s.ready_tail = none
  control : s.current = none ∧ s.zombie = none
  counters : s.active = 0 ∧ s.blocked = 0
  timers : s.heap_len = 0
  owners : ∀ fd, fd_owner_get s fd = none
  /-- No handle, whoever holds it, reaches a fiber. -/
  inert : ∀ c, apply_cmd K s c = s

/-- A loop without live fibers leaves a clean reactor. -/
theorem Core.clean {s : Reactor T γ σ κ} (h : Core s [] q) (K : Kernel κ δ) (hcur : s.current = none)
    (hz : s.zombie = none) : Clean K s := by
  have hfree : ∀ f, s.mem.state f = .FB_FREE := by
    intro f
    by_contra hne
    exact absurd (h.mem_live hne) List.not_mem_nil
  have hq : q = [] := by
    refine List.eq_nil_iff_forall_not_mem.mpr fun f hf => ?_
    have hready := (h.roster.ready f).mp hf
    rw [hfree f] at hready
    exact absurd hready (by simp)
  subst hq
  have hheap : s.heap_len = 0 := by
    by_contra hne
    have hslot : Slotted s.heap s.heap_len (s.heap 0) := ⟨0, by omega, rfl⟩
    have hparked := h.timed.parked _ hslot
    rw [hfree] at hparked
    exact absurd hparked (by simp)
  refine ⟨hfree, h.links.head, ⟨h.roster.queue.head, h.roster.queue.tail⟩, ⟨hcur, hz⟩,
    ⟨h.roster.active, h.roster.blocked⟩, hheap, ?owners, ?inert⟩
  case owners =>
    intro fd
    cases hget : fd_owner_get s fd with
    | none => rfl
    | some f => exact absurd (h.owners.get_some hget).2.1 List.not_mem_nil
  case inert =>
    intro c
    unfold apply_cmd
    cases c.target with
    | none => rfl
    | some f =>
        have hstale : stale s f c.gen = true := by simp [stale, hfree f]
        exact if_pos hstale

/-- **The loop returns** only where `active` is not positive, and changes nothing by it. -/
theorem turn_returns (h : turn L P K S = some S') (hhost : S'.pc = .host) :
    S'.r = S.r ∧ S'.alive = S.alive ∧ S'.ret = some (.ran true) ∧ ¬ S.r.active > 0 := by
  have hflow := turn_flow h
  rw [hhost] at hflow
  unfold turn at h
  cases hpc : S.pc with
  | head =>
      simp only [hpc] at h
      split_ifs at h with hact <;> cases h
      · exact absurd hhost (by simp)
      · exact ⟨rfl, rfl, rfl, hact⟩
  | check =>
      simp only [hpc] at h
      by_cases hact : S.r.active = 0
      · rw [if_pos hact] at h
        cases h
        exact ⟨rfl, rfl, rfl, by rw [hact]; decide⟩
      · rw [if_neg hact] at h
        cases h
        exact absurd hhost (by simp)
  | host => simp [hpc] at h
  | fiber f e => simp [hpc] at h
  | poll t => simp [hpc] at h
  | back f e =>
      rw [hpc] at hflow
      change Pc.host = if some f = e then _ else _ at hflow
      split_ifs at hflow
  | _ =>
      rw [hpc] at hflow
      simp [Flow] at hflow

/-- Where the counter has not wrapped, a count that is not positive is a count of none. -/
theorem Ok.busy_zero (hok : Ok out good S q) (hfew : busy S < 2 ^ 31) (hact : ¬ S.r.active > 0) :
    busy S = 0 := by
  have hint := hok.active_toInt hfew
  rw [gt_iff_lt, Int32.lt_iff_toInt_lt, hint, Int32.toInt_zero] at hact
  omega

/-! ## §5. Every run. -/

variable {ν φ : Type} {M : Mmu ν} {page : Nat} {Mapped : ν → Region → Prop} {sane : ν → Prop}
variable {file : κ → Int → Option φ} {entry : κ → Int → φ → Option (Option Nat × Bool)}

/-- **A clean return.**  In every run: when `cfiber_reactor_run` returns 0, and not with `2 ^ 31` fibers
or more on its hands, every fiber that was ever spawned has returned, by whomever and whenever it was
spawned; the reactor holds nothing; its stacks are all back in the pool; and no entry of the epoll
object is armed for a fiber. -/
theorem run_clean (HL : LibcOk T L out good) (HM : MmuOk T M Mapped sane)
    (E : EpollLaw K file entry) {r : Reactor T γ (GrowableStackAllocator × Proc ν) κ}
    (hr : Fresh T out good r) (hnew : ∀ fd x p, entry r.epoll fd x ≠ some (p, true))
    {heap : Bool × Bool} {args : GrowableArgs} {p : Proc ν} (hsane : sane p.env) (hmade : p.made = [])
    (hargs : args.cache_capacity < 2 ^ T.WORD_BITS)
    (hcreate : cfiber_growable_stack_allocator_create T M page heap args p =
      (some r.stack_pool.1, r.stack_pool.2))
    {as : List (Action δ)} {S S' : Sys T γ (GrowableStackAllocator × Proc ν) κ}
    (hrun : exec (step L (growable T M page) K) (boot r) as = some S)
    (hstep : step L (growable T M page) K S .turn = some S') (hhost : S'.pc = .host)
    (hfew : busy S < 2 ^ 31) :
    S'.ret = some (.ran true) ∧
      tally (step L (growable T M page) K) launched (boot r) as =
        tally (step L (growable T M page) K) completed (boot r) as ∧
      S'.alive = [] ∧ Clean K S'.r ∧
      PoolOk T Mapped sane page S'.r.stack_pool.1 [] S'.r.stack_pool.2 ∧
      ∀ fd x p, entry S'.r.epoll fd x ≠ some (p, true) := by
  have hpool : Stocked T Mapped sane page (boot r) := by
    rcases PoolOk.create HM hsane hmade hargs hcreate with ⟨hnone, -⟩ | ⟨alloc, hsome, hpool, -⟩
    · exact absurd hnone (by simp)
    · obtain rfl := Option.some.inj hsome
      exact hpool
  obtain ⟨q, hok, hreg⟩ := exec_registered HL E (boot_ok hr) (.start hnew) hrun
  obtain ⟨-, hstocked⟩ := exec_stocked HL HM (boot_ok hr) hpool hrun
  have hbal := active_balance HL (boot_ok hr) hrun
  obtain ⟨hsame, hlist, hret, hact⟩ := turn_returns hstep hhost
  have hbusy := hok.busy_zero hfew hact
  obtain ⟨m, q', hd⟩ := step_does HL hok hstep
  have hctl := hd.ok.control
  rw [hhost] at hctl
  have halive : S'.alive = [] := by
    have hlen := hd.ok.busy_alive hctl.2
    have hbusy' : busy S' = 0 := by
      unfold busy at hbusy ⊢
      rwa [hsame, hlist]
    exact List.length_eq_zero_iff.mp (hlen.symm.trans hbusy')
  have hcore := hd.ok.core
  rw [halive] at hcore
  refine ⟨hret, ?balance, halive, hcore.clean K hctl.1 hctl.2, ?pool, ?kernel⟩
  case balance =>
    have hboot : busy (boot r) = 0 := rfl
    omega
  case pool =>
    have hst := hstocked.step HM hok hd
    unfold Stocked at hst
    rwa [halive] at hst
  case kernel =>
    intro fd x p hp
    obtain ⟨-, f, -, hw⟩ := (hreg.step E hok hd).armed hp
    have hlive : f ∈ S'.alive := hd.ok.core.mem_live (by rw [hw.state]; simp)
    rw [halive] at hlive
    exact absurd hlive List.not_mem_nil

/-- One fiber waits on a descriptor, is woken and returns, and the loop ends. -/
def waits_and_returns : List (Action Choice) :=
  [.spawn, .run, .turn, .turn, .wait 3 EPOLLIN (-1), .turn, .turn, .poll (.report [(3, 30)] false),
    .turn, .turn, .turn, .turn, .turn, .finish, .turn]

theorem run_clean_epoll : ∃ r S S', grown = some r ∧
    exec (step bumpLibc (growable lp64 arena 4096) epoll) (boot r) waits_and_returns = some S ∧
    step bumpLibc (growable lp64 arena 4096) epoll S .turn = some S' ∧ S'.alive = [] ∧
    Clean epoll S'.r := by
  have hsome : (grown.bind fun r =>
      (exec (step bumpLibc (growable lp64 arena 4096) epoll) (boot r) waits_and_returns).bind fun S =>
        (step bumpLibc (growable lp64 arena 4096) epoll S .turn).map fun S' => (busy S, S'.pc)) =
      some (0, .host) := by decide +kernel
  obtain ⟨r, hr, hsome⟩ := Option.bind_eq_some_iff.mp hsome
  obtain ⟨S, hS, hsome⟩ := Option.bind_eq_some_iff.mp hsome
  obtain ⟨S', hstep, hfacts⟩ := Option.map_eq_some_iff.mp hsome
  obtain ⟨hbusy, hpc⟩ := Prod.mk.inj hfacts
  obtain ⟨alloc, ha, hc⟩ := Option.bind_eq_some_iff.mp hr
  have hfresh : Fresh lp64 Prod.snd BumpHeapOk r :=
    ⟨320, blank, (64, []), (alloc, pools.2), _, 1000, hc, fun _ => rfl,
      ⟨⟨rfl, fun _ h => absurd h List.not_mem_nil⟩, fun _ h => absurd h List.not_mem_nil,
        List.nodup_nil⟩, rfl⟩
  have hmade : r.stack_pool = (alloc, pools.2) ∧ r.epoll.entries = [] := by
    unfold cfiber_reactor_create at hc
    split at hc
    · exact absurd hc (by simp)
    · obtain rfl := Option.some.inj hc
      exact ⟨rfl, rfl⟩
  have hcreate : pools = (some r.stack_pool.1, r.stack_pool.2) := by
    rw [hmade.1]
    exact Prod.ext ha rfl
  have hnew : ∀ fd x p, r.epoll.stored fd x ≠ some (p, true) := by
    intro fd x p
    unfold Epoll.stored Epoll.find
    rw [hmade.2]
    simp
  have hclean := run_clean bumpLibc_ok arena_ok epoll_law hfresh hnew
    ⟨by decide, fun _ h => absurd h List.not_mem_nil⟩ rfl (by decide) hcreate hS hstep hpc
    (by rw [hbusy]; decide)
  exact ⟨r, S, S', hr, hS, hstep, hclean.2.2.1, hclean.2.2.2.1⟩

end CFiber.Ev
