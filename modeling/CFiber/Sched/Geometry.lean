/-
  CFiber.Sched.Geometry — where the stacks of the scheduler's fibers lie.

  `cfiber_scheduler_init_ext` adds the redzone to the configured size and rounds the sum up to a
  cache line; the fiber's stack starts above the redzone of its block and has the configured size.
  `step_given` says what a step gives each fiber, `Shaped` is the invariant of a run that this comes
  to.  `Geometry` is what a fiber needs: its stack has the configured size, lies in its block above
  the redzone, and apart from every other stack and redzone.

  The addition is not checked.  Where it wraps the block is made for the remainder, and no fiber has
  the room it is told of: the geometry holds exactly if it does not wrap (`geometry_iff`).
-/
import CFiber.Sched.Ownership

namespace CFiber.Sched

open CFiber.Base CFiber.Memory

variable {T : Target} {γ : Type} {B : Backing γ} {out : γ → List Region} {good : γ → Prop}
  {s s' : Scheduler T γ} {S S' : Sys T γ} {q : List Nat} {config : Config}

/-! ## §1. The geometry, and the invariant behind it. -/

/-- The stack of fiber `t`, as a region. -/
def stack_region (s : Scheduler T γ) (t : Nat) : Region :=
  (s.mem.fiber_stack t, s.mem.fiber_stack_size t)

/-- The redzone at the bottom of the block of fiber `t`. -/
def redzone (s : Scheduler T γ) (t : Nat) : Region := (stack_block s.mem t, T.ASAN_REDZONE)

/-- **The stack of fiber `t` is as it was asked for.** -/
structure Geometry (config : Config) (s : Scheduler T γ) (t : Nat) : Prop where
  nowrap : s.mem.fiber_stack t + s.mem.fiber_stack_size t < 2 ^ T.WORD_BITS
  pool : Live s.stack_alloc (stack_block s.mem t)
  above : stack_block s.mem t + T.ASAN_REDZONE ≤ s.mem.fiber_stack t
  inside : s.mem.fiber_stack t + s.mem.fiber_stack_size t
    ≤ stack_block s.mem t + s.stack_alloc.block_size
  size : config.stack_size ≤ s.mem.fiber_stack_size t
  apart : ∀ u, Live s.task_alloc u → u ≠ t →
    Apart (stack_region s t) (stack_region s u) ∧ Apart (stack_region s t) (redzone s u)

/-- What every fiber was given. -/
structure Shaped (config : Config) (s : Scheduler T γ) : Prop where
  stack_size : s.stack_size = config.stack_size
  block_size : s.stack_alloc.block_size
    = align_up T (T.wrap (config.stack_size + T.ASAN_REDZONE)) T.CACHE_LINE_SIZE
  fibers : ∀ t, Live s.task_alloc t →
    s.mem.fiber_stack t = T.wrap (stack_block s.mem t + T.ASAN_REDZONE) ∧
    s.mem.fiber_stack_size t = config.stack_size

/-! ## §2. What a step gives the fibers. -/

/-- The fibers of `s'` that were there in `s` keep what they have; a new one has a block of the pool
and is told the configured size. -/
structure Given (s s' : Scheduler T γ) : Prop where
  stack_size : s'.stack_size = s.stack_size
  block_size : s'.stack_alloc.block_size = s.stack_alloc.block_size
  fibers : ∀ t, Live s'.task_alloc t →
    (Live s.task_alloc t ∧ s'.mem.stack t = s.mem.stack t ∧
      s'.mem.fiber_stack t = s.mem.fiber_stack t ∧
      s'.mem.fiber_stack_size t = s.mem.fiber_stack_size t) ∨
    ∃ mem, s'.mem.stack t = fixed_stack T mem s.stack_alloc.block_size ∧
      s'.mem.fiber_stack t = T.wrap (mem + T.ASAN_REDZONE) ∧
      s'.mem.fiber_stack_size t = s.stack_size

/-- The fibers that are left keep their stacks. -/
theorem Given.shrink (hsize : s'.stack_size = s.stack_size)
    (hpool : s'.stack_alloc.block_size = s.stack_alloc.block_size)
    (hlive : ∀ t, Live s'.task_alloc t → Live s.task_alloc t)
    (hstack : s'.mem.stack = s.mem.stack) (hbase : s'.mem.fiber_stack = s.mem.fiber_stack)
    (hlen : s'.mem.fiber_stack_size = s.mem.fiber_stack_size) : Given s s' := by
  refine ⟨hsize, hpool, ?_⟩
  intro t ht
  left
  rw [hstack, hbase, hlen]
  exact ⟨hlive t ht, rfl, rfl, rfl⟩

theorem Given.refl (s : Scheduler T γ) : Given s s :=
  Given.shrink rfl rfl (fun _ ht => ht) rfl rfl rfl

theorem Given.trans {s'' : Scheduler T γ} (h : Given s s') (h' : Given s' s'') : Given s s'' := by
  refine ⟨h'.stack_size.trans h.stack_size, h'.block_size.trans h.block_size, ?_⟩
  intro t ht
  rcases h'.fibers t ht with ⟨hold, hstack, hbase, hlen⟩ | ⟨mem, hstack, hbase, hlen⟩
  · rw [hstack, hbase, hlen]
    exact h.fibers t hold
  · right
    rw [h.block_size] at hstack
    rw [h.stack_size] at hlen
    exact ⟨mem, hstack, hbase, hlen⟩

/-- **A spawn** gives the new fiber its block and leaves the others theirs. -/
theorem Given.spawn (H : Honest T B out good) (hr : Rep out good s q) (func : Nat) :
    Given s (cfiber_scheduler_spawn B s func).2 := by
  rcases hr.twin.alloc H with ⟨task, ms, c, heq₁, -, -, ht₁⟩ | ⟨ms, c, heq₁, -, ht₁, -⟩
  · rcases ht₁.swap.alloc H with ⟨mem, ms', c', heq₂, hcfg₂, -, ht₂⟩ | ⟨ms', c', heq₂, hcfg₂, ht₂, -⟩
    · simp only [cfiber_scheduler_spawn, heq₁, cfiber_fixed_stack_alloc, heq₂, task_start,
        enqueue_ready_eq]
      refine ⟨rfl, hcfg₂.block_size, ?_⟩
      intro t ht
      have hmem : t ∈ task :: tasks s q := (ht₂.swap.fst.live t).mpr ht
      by_cases htask : t = task
      · subst htask
        right
        refine ⟨mem, ?_, ?_, ?_⟩
        · rw [← hcfg₂.block_size]
          exact Function.update_self _ _ _
        · simp [fixed_stack]
        · exact Function.update_self _ _ _
      · left
        have hold : Live s.task_alloc t := by
          rw [hr.live_task]
          exact (List.mem_cons.mp hmem).resolve_left htask
        simp only [Function.update_of_ne htask]
        exact ⟨hold, trivial, trivial, trivial⟩
    · -- no block for the stack: the task block goes back
      obtain ⟨ms'', c'', heq₃, -, ht₃⟩ := ht₂.swap.release H List.mem_cons_self
      rw [List.erase_cons_head] at ht₃
      simp only [cfiber_scheduler_spawn, heq₁, cfiber_fixed_stack_alloc, heq₂, heq₃]
      refine Given.shrink rfl hcfg₂.block_size ?_ rfl rfl rfl
      intro t ht
      rw [hr.live_task]
      exact (ht₃.fst.live t).mpr ht
  · simp only [cfiber_scheduler_spawn, heq₁]
    refine Given.shrink rfl rfl ?_ rfl rfl rfl
    intro t ht
    rw [hr.live_task]
    exact (ht₁.fst.live t).mpr ht

/-- **The zombie's blocks go back**; the other fibers keep theirs. -/
theorem Given.free_zombie (H : Honest T B out good) (hr : Rep out good s q)
    (heq : free_zombie B s = some s') : Given s s' := by
  cases hz : s.zombie with
  | none =>
      simp only [Sched.free_zombie, hz] at heq
      obtain rfl := Option.some.inj heq
      exact Given.refl s
  | some z =>
      have hsplit : (tasks s q).Perm (z :: unreturned s q) := by
        unfold tasks unreturned
        rw [hz]
        exact List.perm_append_comm
      have hmap := hsplit.map (stack_block s.mem)
      rw [List.map_cons] at hmap
      have ht := hr.twin.perm hsplit hmap
      obtain ⟨ms₁, c₁, heq₁, hcfg₁, ht₁⟩ := ht.swap.release H List.mem_cons_self
      obtain ⟨ms₂, c₂, heq₂, -, ht₂⟩ := ht₁.swap.release H List.mem_cons_self
      rw [List.erase_cons_head, List.erase_cons_head] at ht₂
      simp only [Sched.free_zombie, hz, task_free, cfiber_fixed_stack_release] at heq
      rw [show (s.mem.stack z).mem_base.getD 0 = stack_block s.mem z from rfl, heq₁] at heq
      simp only [heq₂, Option.map_some, Option.some.injEq] at heq
      subst heq
      refine Given.shrink rfl hcfg₁.block_size ?_ rfl rfl rfl
      intro t hlive
      rw [hr.live_task]
      exact hsplit.mem_iff.mpr (List.mem_cons_of_mem z ((ht₂.fst.live t).mpr hlive))

theorem Given.dequeue (s : Scheduler T γ) : Given s (dequeue_ready s).2 := by
  cases hhead : s.ready_head with
  | none =>
      simp only [dequeue_ready, hhead]
      exact Given.refl s
  | some t =>
      rw [dequeue_ready_eq hhead]
      exact Given.shrink rfl rfl (fun _ ht => ht) rfl rfl rfl

theorem Given.yield (s : Scheduler T γ) : Given s (cfiber_yield s).2 := by
  unfold cfiber_yield
  cases s.current with
  | none => exact Given.refl s
  | some t =>
      cases s.ready_head with
      | none => exact Given.refl s
      | some u =>
          simp only [enqueue_ready_eq]
          exact Given.shrink rfl rfl (fun _ ht => ht) rfl rfl rfl

/-- **What a step gives the fibers.** -/
theorem step_given (H : Honest T B out good) {a : Action} (hi : Inv out good S q)
    (hstep : step B S a = some S') : Given S.s S'.s := by
  rcases step_cases hstep with ⟨rfl, -, rfl⟩ | ⟨rfl, -, rfl⟩ | ⟨rfl, -, rfl⟩ | ⟨t, rfl, -, rfl⟩ |
    ⟨t, rfl, -, rfl⟩
  · have hspawn := Given.spawn H hi.rep S.spawned
    unfold Sched.spawn
    rcases heq : cfiber_scheduler_spawn B S.s S.spawned with ⟨_ | _, s'⟩
    · rw [heq] at hspawn; exact hspawn
    · rw [heq] at hspawn; exact hspawn
  · exact Given.refl S.s
  · unfold Sched.turn
    cases heq : Sched.free_zombie B S.s with
    | none => exact Given.refl S.s
    | some s' =>
        have hfree := Given.free_zombie H hi.rep heq
        have hnext := hfree.trans (Given.dequeue s')
        dsimp only
        split_ifs
        · rcases hdeq : dequeue_ready s' with ⟨_ | t, s''⟩
          · rw [hdeq] at hnext; exact hnext
          · rw [hdeq] at hnext
            exact hnext.trans (Given.shrink rfl rfl (fun _ ht => ht) rfl rfl rfl)
        · exact hfree
  · exact Given.yield S.s
  · exact Given.shrink rfl rfl (fun _ ht => ht) rfl rfl rfl

theorem Shaped.start {sizeof_task : Nat} {m : TaskMem} {c : γ}
    (hinit : cfiber_scheduler_init_ext T sizeof_task config m c = some s) : Shaped config s := by
  obtain ⟨per, task_alloc, stack_alloc, h₁, h₂, -, rfl⟩ := cfiber_scheduler_init_ext_spec hinit
  obtain ⟨-, hdom, -⟩ := cfiber_multislab_init_ext_spec h₁
  obtain ⟨-, -, hblock, -⟩ := cfiber_multislab_init_ext_spec h₂
  refine ⟨rfl, hblock, ?_⟩
  rintro t ⟨n, hn, -⟩
  rw [hdom] at hn
  exact absurd hn List.not_mem_nil

/-- **A step keeps the shape.** -/
theorem Shaped.step (h : Shaped config s) (hg : Given s s') : Shaped config s' := by
  refine ⟨hg.stack_size.trans h.stack_size, hg.block_size.trans h.block_size, ?_⟩
  intro t ht
  rcases hg.fibers t ht with ⟨hold, hstack, hbase, hlen⟩ | ⟨mem, hstack, hbase, hlen⟩
  · unfold stack_block
    rw [hstack, hbase, hlen]
    exact h.fibers t hold
  · unfold stack_block
    rw [hstack, hbase, hlen]
    exact ⟨rfl, h.stack_size⟩

/-! ## §3. The size of a block. -/

/-- **Rounding up** loses nothing unless it wraps, and then it comes to zero. -/
theorem align_up_cases (T : Target) {v align : Nat} (ha : 0 < align) (hv : v < 2 ^ T.WORD_BITS) :
    v ≤ align_up T v align ∨ align_up T v align = 0 := by
  unfold align_up Build.wrap
  by_cases hwrap : v + align - 1 < 2 ^ T.WORD_BITS
  · left
    rw [Nat.mod_eq_of_lt hwrap]
    have hdiv := Nat.div_add_mod (v + align - 1) align
    have hmod := Nat.mod_lt (v + align - 1) ha
    rw [Nat.mul_comm] at hdiv
    omega
  · rcases Nat.lt_or_ge (v + align - 1) (2 ^ T.WORD_BITS + align) with hlt | hge
    · right
      by_cases hsmall : align ≤ 2 ^ T.WORD_BITS
      · rw [Nat.mod_eq_sub_mod (by omega), Nat.mod_eq_of_lt (by omega),
          Nat.div_eq_of_lt (by omega), Nat.zero_mul]
      · have hmod := Nat.mod_lt (v + align - 1) (Nat.two_pow_pos T.WORD_BITS)
        rw [Nat.div_eq_of_lt (by omega), Nat.zero_mul]
    · omega

/-- A configuration that was accepted has a block for the wrapped sum at least. -/
theorem init_block_ge {sizeof_task : Nat} {m : TaskMem} {c : γ}
    (hinit : cfiber_scheduler_init_ext T sizeof_task config m c = some s) :
    T.wrap (config.stack_size + T.ASAN_REDZONE)
      ≤ align_up T (T.wrap (config.stack_size + T.ASAN_REDZONE)) T.CACHE_LINE_SIZE := by
  obtain ⟨per, task_alloc, stack_alloc, -, h₂, -, -⟩ := cfiber_scheduler_init_ext_spec hinit
  have hpos := (cfiber_multislab_init_ext_spec h₂).1.config.block_pos
  rw [(cfiber_multislab_init_ext_spec h₂).2.2.1] at hpos
  have hlt : T.wrap (config.stack_size + T.ASAN_REDZONE) < 2 ^ T.WORD_BITS :=
    Nat.mod_lt _ (Nat.two_pow_pos _)
  rcases align_up_cases T T.cache_line_pos hlt with hle | hzero
  · exact hle
  · omega

/-! ## §4. When the geometry holds. -/

/-- **The geometry where the sum does not wrap.** -/
theorem Shaped.geometry (hr : Rep out good s q) (h : Shaped config s)
    (hblock : T.wrap (config.stack_size + T.ASAN_REDZONE) ≤ s.stack_alloc.block_size)
    (hsum : config.stack_size + T.ASAN_REDZONE < 2 ^ T.WORD_BITS) {t : Nat}
    (ht : Live s.task_alloc t) : Geometry config s t := by
  rw [T.wrap_of_lt hsum] at hblock
  obtain ⟨as, fs, hrep⟩ := hr.twin.snd.rep
  have hlive : ∀ u, Live s.task_alloc u → Live s.stack_alloc (stack_block s.mem u) := by
    intro u hu
    have hu' := (hr.live_task u).mp hu
    exact (hr.live_stack _).mpr ⟨u, hu', hr.based u hu'⟩
  -- above the redzone of its block, and not past the block's end
  have hplace : ∀ u, Live s.task_alloc u →
      s.mem.fiber_stack u = stack_block s.mem u + T.ASAN_REDZONE ∧
      s.mem.fiber_stack_size u = config.stack_size ∧
      stack_block s.mem u + s.stack_alloc.block_size < 2 ^ T.WORD_BITS := by
    intro u hu
    have hfit := hrep.live_fits hr.twin.snd.own (hlive u hu)
    obtain ⟨hbase, hlen⟩ := h.fibers u hu
    simp only at hfit
    rw [T.wrap_of_lt (by omega)] at hbase
    exact ⟨hbase, hlen, hfit⟩
  obtain ⟨hbase, hlen, hfit⟩ := hplace t ht
  refine ⟨by omega, hlive t ht, by omega, by omega, by omega, ?_⟩
  intro u hu hne
  obtain ⟨hbase', hlen', -⟩ := hplace u hu
  have hdistinct : stack_block s.mem t ≠ stack_block s.mem u := by
    intro e
    have hinj := List.inj_on_of_nodup_map hr.stacks_nodup ((hr.live_task t).mp ht)
      ((hr.live_task u).mp hu) e
    exact hne hinj.symm
  have hap := hrep.live_apart hr.twin.snd.own (hlive t ht) (hlive u hu) hdistinct
  unfold Apart stack_region redzone at *
  simp only at hap ⊢
  constructor
  · omega
  · omega

/-- **Where the sum wraps the stack does not fit.** -/
theorem Shaped.no_geometry (hr : Rep out good s q)
    (hsum : 2 ^ T.WORD_BITS ≤ config.stack_size + T.ASAN_REDZONE) {t : Nat} :
    ¬ Geometry config s t := by
  intro hg
  obtain ⟨as, fs, hrep⟩ := hr.twin.snd.rep
  have hfit := hrep.live_fits hr.twin.snd.own hg.pool
  have habove := hg.above
  have hinside := hg.inside
  have hsize := hg.size
  simp only at hfit
  omega

/-- **When the geometry holds.**  In every state a run reaches, a fiber's stack is as it was asked
for exactly if the configured size and the redzone together do not wrap. -/
theorem geometry_iff (H : Honest T B out good) {sizeof_task : Nat} {m : TaskMem} {c : γ}
    (hinit : cfiber_scheduler_init_ext T sizeof_task config m c = some s) (hg : good c)
    (hout : out c = []) {actions : List Action}
    (hrun : exec (step B) (boot s) actions = some S) {t : Nat} (ht : Live S.s.task_alloc t) :
    Geometry config S.s t ↔ config.stack_size + T.ASAN_REDZONE < 2 ^ T.WORD_BITS := by
  obtain ⟨⟨q, hi⟩, hs⟩ := exec_inv
    (fun S : Sys T γ => (∃ q, Inv out good S q) ∧ Shaped config S.s)
    (fun _ _ _ ⟨⟨_, hi⟩, hs⟩ hstep => ⟨(hi.step H hstep).imp fun _ h => h.1,
      hs.step (step_given H hi hstep)⟩)
    ⟨⟨[], Inv.start hinit hg hout⟩, Shaped.start hinit⟩ hrun
  constructor
  · intro hgeo
    by_contra hwrap
    exact Shaped.no_geometry hi.rep (by omega) hgeo
  · intro hsum
    apply Shaped.geometry hi.rep hs _ hsum ht
    rw [hs.block_size]
    exact init_block_ge hinit

/-! ## §5. Two configurations under the address sanitizer. -/

theorem bump_honest_sanitized : Honest sanitized bump Prod.snd bumpOk :=
  ⟨bump_honest.alloc_some, bump_honest.alloc_none, bump_honest.free⟩

/-- The fiber at the head of the queue is there. -/
theorem Inv.live_head {t : Nat} (h : Inv out good S q) (ht : S.s.ready_head = some t) :
    Live S.s.task_alloc t := by
  rw [h.rep.ready_head] at ht
  rw [h.rep.live_task]
  have hq : t ∈ q := List.mem_of_head? ht
  simp [tasks, hq]

theorem geometry_iff_bump : ∃ s S t,
    cfiber_scheduler_init_ext sanitized 120 ⟨1024, 4, 0⟩ blank (64, []) = some s ∧
    exec (step bump) (boot s) [.spawn, .spawn] = some S ∧ S.s.ready_head = some t ∧
    Geometry ⟨1024, 4, 0⟩ S.s t := by
  have hsome : ((cfiber_scheduler_init_ext sanitized 120 ⟨1024, 4, 0⟩ blank (64, [])).bind fun s =>
      (exec (step bump) (boot s) [.spawn, .spawn]).bind fun S => S.s.ready_head).isSome = true := by
    decide +kernel
  obtain ⟨t, ht⟩ := Option.isSome_iff_exists.mp hsome
  obtain ⟨s, hs, ht⟩ := Option.bind_eq_some_iff.mp ht
  obtain ⟨S, hrun, ht⟩ := Option.bind_eq_some_iff.mp ht
  have hgood : bumpOk (64, []) := ⟨rfl, fun _ h => absurd h List.not_mem_nil⟩
  obtain ⟨q, hi⟩ := Inv.run bump_honest_sanitized hs hgood rfl hrun
  exact ⟨s, S, t, hs, hrun, ht, (geometry_iff bump_honest_sanitized hs hgood rfl hrun
    (hi.live_head ht)).mpr (by decide)⟩

/-- **The largest `stack_size`**: the scheduler is made, the fiber is spawned, and its block is one
cache line. -/
theorem geometry_wraps : ∃ s S t,
    cfiber_scheduler_init_ext sanitized 120 ⟨2 ^ 64 - 1, 4, 0⟩ blank (64, []) = some s ∧
    exec (step bump) (boot s) [.spawn] = some S ∧ Live S.s.task_alloc t ∧
    S.s.mem.fiber_stack_size t = 2 ^ 64 - 1 ∧ S.s.stack_alloc.block_size = 64 ∧
    ¬ Geometry ⟨2 ^ 64 - 1, 4, 0⟩ S.s t := by
  have hsome : ((cfiber_scheduler_init_ext sanitized 120 ⟨2 ^ 64 - 1, 4, 0⟩ blank (64, [])).bind
      fun s => (exec (step bump) (boot s) [.spawn]).bind fun S => S.s.ready_head.map fun t =>
        (S.s.mem.fiber_stack_size t, S.s.stack_alloc.block_size)) = some (2 ^ 64 - 1, 64) := by
    decide +kernel
  obtain ⟨s, hs, hsome⟩ := Option.bind_eq_some_iff.mp hsome
  obtain ⟨S, hrun, hsome⟩ := Option.bind_eq_some_iff.mp hsome
  obtain ⟨t, ht, hfacts⟩ := Option.map_eq_some_iff.mp hsome
  obtain ⟨hlen, hblock⟩ := Prod.mk.inj hfacts
  have hgood : bumpOk (64, []) := ⟨rfl, fun _ h => absurd h List.not_mem_nil⟩
  obtain ⟨q, hi⟩ := Inv.run bump_honest_sanitized hs hgood rfl hrun
  exact ⟨s, S, t, hs, hrun, hi.live_head ht, hlen, hblock,
    Shaped.no_geometry hi.rep (by decide)⟩

end CFiber.Sched
