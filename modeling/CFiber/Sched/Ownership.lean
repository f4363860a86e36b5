/-
  CFiber.Sched.Ownership — what the scheduler promises about tasks and stacks, and when.

  `Law` is the promise in one state: the counter, the live blocks of both pools against the fibers,
  what a refused spawn and a release do, and what is left when `cfiber_scheduler_run` returns.
  Everything but the counter, and the return with an empty queue that rests on it, holds in every
  state.  The counter is a `uint32_t` and nothing bounds the number of fibers: the promise holds
  exactly while fewer than `2 ^ 32` fibers are unfinished (`lifecycle_iff`), and `2 ^ 32` spawns
  break it (`active_count_wraps`).
-/
import CFiber.Sched.Lifecycle

namespace CFiber.Sched

open CFiber.Base CFiber.Memory

variable {T : Target} {γ : Type} {B : Backing γ} {out : γ → List Region} {good : γ → Prop}
  {S S' : Sys T γ} {q : List Nat}

/-! ## §1. The promise. -/

/-- The live blocks of the two pools, one to one with the fibers. -/
structure BlocksOk (s : Scheduler T γ) (q : List Nat) : Prop where
  distinct : (tasks s q).Nodup
  task : ∀ p, Live s.task_alloc p ↔ p ∈ tasks s q
  stack : ∀ p, Live s.stack_alloc p ↔ ∃ t ∈ tasks s q, (s.mem.stack t).mem_base = some p
  apart : ∀ t ∈ tasks s q, ∀ u ∈ tasks s q,
    (s.mem.stack t).mem_base = (s.mem.stack u).mem_base → t = u

/-- Each fiber is made, returns and is freed, in this order and at most once each; it is a ready,
current or zombie fiber from when it is made until it is freed. -/
structure LivesOk (S : Sys T γ) (q : List Nat) : Prop where
  order : ∀ f, stages S.events f <+: [.made, .returned, .freed]
  named : ∀ t ∈ tasks S.s q, ∀ u ∈ tasks S.s q, S.s.mem.entry t = S.s.mem.entry u → t = u
  present : ∀ f, (∃ t ∈ tasks S.s q, S.s.mem.entry t = f) ↔
    .made ∈ stages S.events f ∧ .freed ∉ stages S.events f

/-- A refused spawn changes neither the queue, nor the counter, nor the live blocks. -/
def RefusedOk (B : Backing γ) (s : Scheduler T γ) : Prop :=
  ∀ func s', cfiber_scheduler_spawn B s func = (false, s') → Untouched s s' ∧
    (∀ p, Live s'.task_alloc p ↔ Live s.task_alloc p) ∧
    ∀ p, Live s'.stack_alloc p ↔ Live s.stack_alloc p

/-- The fiber `z`, whose blocks a step from `S` to `S'` releases, has returned, and it is the loop,
on the caller's stack, that releases them. -/
structure ReapedBy (S S' : Sys T γ) (z : Nat) : Prop where
  control : S.pc = .loop
  zombie : S.s.zombie = some z
  before : stages S.events (S.s.mem.entry z) = [.made, .returned]
  after : stages S'.events (S.s.mem.entry z) = [.made, .returned, .freed]

/-- Only the zombie's blocks are ever released. -/
def ReleaseOk (B : Backing γ) (S : Sys T γ) : Prop :=
  ∀ a S', step B S a = some S' → ∀ p,
    (Live S.s.task_alloc p → ¬ Live S'.s.task_alloc p → ReapedBy S S' p) ∧
    (Live S.s.stack_alloc p → ¬ Live S'.s.stack_alloc p →
      ∃ z, (S.s.mem.stack z).mem_base = some p ∧ ReapedBy S S' z)

/-- Nothing is left when `cfiber_scheduler_run` returns. -/
structure Finished (S : Sys T γ) : Prop where
  ready_head : S.s.ready_head = none
  ready_tail : S.s.ready_tail = none
  current : S.s.current = none
  zombie : S.s.zombie = none
  task : ∀ p, ¬ Live S.s.task_alloc p
  stack : ∀ p, ¬ Live S.s.stack_alloc p
  freed : ∀ f < S.spawned, stages S.events f = [.made, .returned, .freed]

/-- **The promise.** -/
structure Law (B : Backing γ) (S : Sys T γ) : Prop where
  fibers : ∃ q, Fifo S.s.mem.next S.s.ready_head S.s.ready_tail q ∧
    S.s.active_count.toNat = q.length + (if S.s.current.isSome then 1 else 0) ∧
    BlocksOk S.s q ∧ LivesOk S q
  control : ∀ t, S.pc = .fiber t → S.s.current = some t
  refused : RefusedOk B S.s
  release : ReleaseOk B S
  trap : S.pc ≠ .trap
  returned : S.pc = .loop → (turn B S).pc = .host → Finished (turn B S)

/-! ## §2. Each part of the promise. -/

theorem Rep.blocksOk {s : Scheduler T γ} (h : Rep out good s q) : BlocksOk s q := by
  refine ⟨h.nodup, h.live_task, h.live_stack, fun t ht u hu he => ?_⟩
  have hblock : stack_block s.mem t = stack_block s.mem u := by
    unfold stack_block
    rw [he]
  exact List.inj_on_of_nodup_map h.stacks_nodup ht hu hblock

/-- The stages of a fiber that is present. -/
theorem Lives.present (h : Lives S q) {t : Nat} (ht : t ∈ tasks S.s q) :
    stages S.events (S.s.mem.entry t) = [.made] ∨
      stages S.events (S.s.mem.entry t) = [.made, .returned] := by
  rcases List.mem_append.mp ht with hl | hz
  · exact Or.inl (h.running t hl)
  · exact Or.inr (h.zombie t (Option.mem_toList.mp hz))

theorem Lives.livesOk (h : Lives S q) : LivesOk S q := by
  have hcases : ∀ f, stages S.events f = [] ∨ (∃ t ∈ tasks S.s q, S.s.mem.entry t = f) ∨
      ((∀ t ∈ tasks S.s q, S.s.mem.entry t ≠ f) ∧
        stages S.events f = [.made, .returned, .freed]) := by
    intro f
    rcases Nat.lt_or_ge f S.spawned with hf | hf
    · by_cases hex : ∃ t ∈ tasks S.s q, S.s.mem.entry t = f
      · exact Or.inr (Or.inl hex)
      · have hnone : ∀ t ∈ tasks S.s q, S.s.mem.entry t ≠ f := fun t ht he => hex ⟨t, ht, he⟩
        exact Or.inr (Or.inr ⟨hnone, h.gone f hf hnone⟩)
    · exact Or.inl (h.unborn f hf)
  refine ⟨fun f => ?_, fun t ht u hu he => List.inj_on_of_nodup_map h.distinct ht hu he,
    fun f => ⟨?_, ?_⟩⟩
  · rcases hcases f with he | ⟨t, ht, rfl⟩ | ⟨-, he⟩
    · rw [he]
      exact List.nil_prefix
    · rcases h.present ht with he | he
      · exact ⟨[.returned, .freed], by rw [he]; rfl⟩
      · exact ⟨[.freed], by rw [he]; rfl⟩
    · rw [he]
  · rintro ⟨t, ht, rfl⟩
    rcases h.present ht with he | he
    · simp [he]
    · simp [he]
  · rintro ⟨hmade, hfreed⟩
    rcases hcases f with he | hex | ⟨-, he⟩
    · simp [he] at hmade
    · exact hex
    · simp [he] at hfreed

theorem Rep.refusedOk (H : Honest T B out good) {s : Scheduler T γ} (h : Rep out good s q) :
    RefusedOk B s := by
  intro func s' heq
  rcases cfiber_scheduler_spawn_spec H h func with ⟨t, s₁, heq₁, -⟩ | ⟨s₁, heq₁, hrep, hu⟩
  · rw [heq₁] at heq
    exact absurd heq (by simp)
  · obtain rfl : s₁ = s' := by
      rw [heq₁] at heq
      exact (Prod.mk.injEq .. ▸ heq).2
    have htasks : tasks s₁ q = tasks s q := by unfold tasks; rw [hu.current, hu.zombie]
    refine ⟨hu, fun p => ?_, fun p => ?_⟩
    · rw [hrep.live_task, h.live_task, htasks]
    · rw [hrep.live_stack, h.live_stack, htasks, hu.mem]

/-- The task that a step ends is the zombie. -/
theorem Inv.reaped {t : Nat} {q' : List Nat} (h : Inv out good S q)
    (hk : Kept S S' q q' none ∨
      S.pc = .loop ∧ Kept S S' q q' S.s.zombie ∧ S'.events = S.events ++ freed S.s)
    (ht : t ∈ tasks S.s q) (ht' : t ∉ tasks S'.s q') : ReapedBy S S' t := by
  rcases hk with hk | ⟨hpc, hk, he⟩
  · exact absurd (hk.stays t ht) (by simp [ht'])
  · have hz : S.s.zombie = some t := (hk.stays t ht).resolve_left ht'
    have hfreed : freed S.s = [.free (S.s.mem.entry t)] := by simp [freed, hz]
    refine ⟨hpc, hz, h.lives.zombie t hz, ?_⟩
    rw [he, hfreed, stages_append, h.lives.zombie t hz]
    simp [stages, Event.stage]

theorem Inv.releaseOk (H : Honest T B out good) (h : Inv out good S q) : ReleaseOk B S := by
  intro a S' hstep p
  obtain ⟨q', h', hk⟩ := h.step H hstep
  constructor
  · intro hl hl'
    rw [h.rep.live_task] at hl
    rw [h'.rep.live_task] at hl'
    exact h.reaped hk hl hl'
  · intro hl hl'
    obtain ⟨t, ht, hb⟩ := (h.rep.live_stack p).mp hl
    refine ⟨t, hb, h.reaped hk ht fun ht' => hl' ?_⟩
    have hstack : S'.s.mem.stack t = S.s.mem.stack t := by
      rcases hk with hk | ⟨-, hk, -⟩
      · exact hk.stack t ht
      · exact hk.stack t ht
    exact (h'.rep.live_stack p).mpr ⟨t, ht', by rw [hstack]; exact hb⟩

/-- With an empty queue, control at the host leaves nothing behind. -/
theorem Inv.finished (h : Inv out good S []) (hpc : S.pc = .host) : Finished S := by
  obtain ⟨hc, hz⟩ : S.s.current = none ∧ S.s.zombie = none := by
    have := h.pc
    unfold PcOk at this
    rwa [hpc] at this
  have htasks : tasks S.s [] = [] := by simp [tasks, hc, hz]
  refine ⟨h.rep.queue.head, h.rep.queue.tail, hc, hz, fun p => ?_, fun p => ?_, fun f hf => ?_⟩
  · rw [h.rep.live_task, htasks]
    simp
  · rw [h.rep.live_stack, htasks]
    simp
  · exact h.lives.gone f hf (by simp [htasks])

theorem unreturned_length (s : Scheduler T γ) (q : List Nat) :
    (unreturned s q).length = q.length + (if s.current.isSome then 1 else 0) := by
  unfold unreturned
  cases s.current <;> simp

/-! ## §3. When the promise holds. -/

/-- **The whole promise, below `2 ^ 32` unfinished fibers.** -/
theorem Inv.law (H : Honest T B out good) (h : Inv out good S q) (hlt : S.unfinished < 2 ^ 32) :
    Law B S := by
  have hlen := h.unfinished_eq
  have hpc := h.pc
  unfold PcOk at hpc
  refine ⟨⟨q, h.rep.queue, ?_, h.rep.blocksOk, h.lives.livesOk⟩, ?_, h.rep.refusedOk H,
    h.releaseOk H, ?_, ?_⟩
  · rw [h.rep.count, UInt32.toNat_ofNat', Nat.mod_eq_of_lt (by omega), unreturned_length]
  · intro t ht
    rw [ht] at hpc
    exact hpc.1
  · intro ht
    rw [ht] at hpc
    exact hpc
  · intro hloop hhost
    have hcur : S.s.current = none := by
      rw [hloop] at hpc
      exact hpc
    rcases h.turn H hloop with ⟨hdvd, h', -⟩ | ⟨t, q', -, -, -, hfiber, -⟩
    · have hq : q.length < 2 ^ 32 := by
        rw [hlen, unreturned_length, hcur] at hlt
        simpa using hlt
      obtain rfl : q = [] := List.eq_nil_of_length_eq_zero (Nat.eq_zero_of_dvd_of_lt hdvd hq)
      exact h'.finished hhost
    · exact absurd (hhost.symm.trans hfiber) (by simp)

/-- **When the promise holds.**  In every state that a run can reach, the scheduler keeps its whole
promise exactly if fewer than `2 ^ 32` fibers are unfinished. -/
theorem lifecycle_iff (H : Honest T B out good) {sizeof_task : Nat} {config : Config}
    {m : TaskMem} {c : γ} {s : Scheduler T γ}
    (hinit : cfiber_scheduler_init_ext T sizeof_task config m c = some s) (hg : good c)
    (hout : out c = []) {actions : List Action}
    (hrun : exec (step B) (boot s) actions = some S) : Law B S ↔ S.unfinished < 2 ^ 32 := by
  obtain ⟨q, h⟩ := Inv.run H hinit hg hout hrun
  constructor
  · intro hlaw
    obtain ⟨q', hq', hcount, -⟩ := hlaw.fibers
    obtain rfl : q' = q := hq'.unique h.rep.queue
    rw [h.unfinished_eq, unreturned_length, ← hcount]
    exact S.s.active_count.toNat_lt
  · intro hlt
    exact h.law H hlt

/-! ## §4. A run that wraps `active_count`. -/

/-- The memory of the tasks before any is written. -/
def blank : TaskMem := ⟨fun _ => 0, fun _ => 0, fun _ => 0, fun _ => Stack.null, fun _ => none⟩

/-- Stacks of 256 bytes, one fiber a slab, no cap; a task takes 120 bytes. -/
def small : Option (Scheduler lp64 (Nat × List Region)) :=
  cfiber_scheduler_init_ext lp64 120 ⟨256, 1, 0⟩ blank (64, [])

theorem lifecycle_iff_bump : ∃ s S, small = some s ∧
    exec (step bump) (boot s) [.spawn, .spawn, .run, .turn, .yield, .turn, .spawn, .finish, .turn]
      = some S ∧ (Law bump S ↔ S.unfinished < 2 ^ 32) := by
  have hsome : (small.bind fun s => exec (step bump) (boot s)
      [.spawn, .spawn, .run, .turn, .yield, .turn, .spawn, .finish, .turn]).isSome = true := by
    decide +kernel
  obtain ⟨S, hS⟩ := Option.isSome_iff_exists.mp hsome
  obtain ⟨s, hs, hrun⟩ := Option.bind_eq_some_iff.mp hS
  exact ⟨s, S, hs, hrun, lifecycle_iff bump_honest hs
    ⟨rfl, fun _ h => absurd h List.not_mem_nil⟩ rfl hrun⟩

/-- The pools of `small`: one block a slab, no cap. -/
structure Roomy (s : Scheduler lp64 (Nat × List Region)) : Prop where
  task_size : s.task_alloc.slab_memory_size = 128
  task_cap : s.task_alloc.max_slabs = 0
  stack_size : s.stack_alloc.slab_memory_size = 256
  stack_cap : s.stack_alloc.max_slabs = 0

theorem small_roomy {s : Scheduler lp64 (Nat × List Region)} (hs : small = some s) : Roomy s := by
  obtain ⟨per, task_alloc, stack_alloc, h₁, h₂, hper, rfl⟩ := cfiber_scheduler_init_ext_spec hs
  obtain rfl : per = 1 := hper (by decide)
  obtain ⟨hrep₁, -, hbs₁, hper₁, hmax₁, -⟩ := cfiber_multislab_init_ext_spec h₁
  obtain ⟨hrep₂, -, hbs₂, hper₂, hmax₂, -⟩ := cfiber_multislab_init_ext_spec h₂
  exact ⟨by rw [hrep₁.config.size_eq, hbs₁, hper₁]; rfl, hmax₁,
    by rw [hrep₂.config.size_eq, hbs₂, hper₂]; rfl, hmax₂⟩

/-- While the address space lasts, every spawn succeeds. -/
theorem bump_spawn {s : Scheduler lp64 (Nat × List Region)}
    (h : Rep Prod.snd bumpOk s q) (hr : Roomy s) (hroom : s.mem_ctx.1 + 640 < 2 ^ 63)
    (func : Nat) : ∃ s', cfiber_scheduler_spawn bump s func = (true, s') ∧ Roomy s' ∧
      s'.mem_ctx.1 ≤ s.mem_ctx.1 + 640 := by
  have hroom₁ : room s.task_alloc = 256 := by
    unfold room
    rw [hr.task_size]
  have hroom₂ : room s.stack_alloc = 384 := by
    unfold room
    rw [hr.stack_size]
  have hle₁ := bump_bumps.call_le s.task_alloc s.mem_ctx
  rcases h.twin.alloc bump_honest with ⟨task, ms, c, heq₁, hcfg₁, -, ht₁⟩ | ⟨ms, c, -, -, -, hwhy⟩
  · rw [heq₁] at hle₁
    simp only at hle₁
    have hle₂ := bump_bumps.call_le s.stack_alloc c
    rcases ht₁.swap.alloc bump_honest with ⟨mem, ms', c', heq₂, hcfg₂, -, -⟩ |
      ⟨ms', c', -, -, -, hwhy⟩
    · rw [heq₂] at hle₂
      simp only at hle₂
      obtain ⟨s', hs'⟩ : ∃ s', s' = task_start
          { s with task_alloc := ms, stack_alloc := ms', mem_ctx := c' } task
          (fixed_stack lp64 mem ms'.block_size) func := ⟨_, rfl⟩
      obtain ⟨hp₁, hp₂, hctx⟩ := task_start_pools
        { s with task_alloc := ms, stack_alloc := ms', mem_ctx := c' } task
        (fixed_stack lp64 mem ms'.block_size) func
      rw [← hs'] at hp₁ hp₂ hctx
      refine ⟨s', ?_, ⟨?_, ?_, ?_, ?_⟩, ?_⟩
      · simp only [cfiber_scheduler_spawn, heq₁, cfiber_fixed_stack_alloc, heq₂, hs']
      · rw [hp₁]
        exact hcfg₁.slab_memory_size.trans hr.task_size
      · rw [hp₁]
        exact hcfg₁.max_slabs.trans hr.task_cap
      · rw [hp₂]
        exact hcfg₂.slab_memory_size.trans hr.stack_size
      · rw [hp₂]
        exact hcfg₂.max_slabs.trans hr.stack_cap
      · rw [hctx]
        show c'.1 ≤ s.mem_ctx.1 + 640
        omega
    · exfalso
      obtain ⟨as, fs, hrep⟩ := h.twin.snd.rep
      rcases hwhy with ⟨hcap, -⟩ | href
      · exact hcap hr.stack_cap
      · refine bump_bumps.not_refused bump_honest bump_aligned hrep.config ht₁.snd.good.1 ?_ href
        simp only
        omega
  · exfalso
    obtain ⟨as, fs, hrep⟩ := h.twin.fst.rep
    rcases hwhy with ⟨hcap, -⟩ | href
    · exact hcap hr.task_cap
    · refine bump_bumps.not_refused bump_honest bump_aligned hrep.config h.twin.fst.good.1 ?_ href
      simp only
      omega

/-- The host seeds `k` fibers. -/
theorem bump_seeds {s : Scheduler lp64 (Nat × List Region)} (hs : small = some s) (k : Nat)
    (hk : k ≤ 2 ^ 32) :
    ∃ S q, exec (step bump) (boot s) (List.replicate k .spawn) = some S ∧
      Inv Prod.snd bumpOk S q ∧ S.pc = .host ∧ S.unfinished = k ∧ Roomy S.s ∧
      S.s.mem_ctx.1 ≤ 64 + 640 * k := by
  induction k with
  | zero =>
      have hctx : s.mem_ctx = (64, []) := by
        obtain ⟨_, _, _, -, -, -, rfl⟩ := cfiber_scheduler_init_ext_spec hs
        rfl
      have hstart : Inv Prod.snd bumpOk (boot s) [] :=
        Inv.start hs ⟨rfl, fun _ h => absurd h List.not_mem_nil⟩ rfl
      refine ⟨boot s, [], rfl, hstart, rfl, rfl, small_roomy hs, ?_⟩
      show s.mem_ctx.1 ≤ 64 + 640 * 0
      rw [hctx]
  | succ k ih =>
      obtain ⟨S, q, hrun, h, hpc, hcount, hr, hctx⟩ := ih (by omega)
      obtain ⟨s', heq, hr', hle⟩ := bump_spawn h.rep hr (by omega) S.spawned
      have hspawn : Sched.spawn bump S = { S with
          s := s'
          spawned := S.spawned + 1
          events := S.events ++ [.spawn S.running (some S.spawned)] } := by
        simp only [Sched.spawn, heq]
      have hstep : step bump S .spawn = some (Sched.spawn bump S) := by
        simp only [step, hpc]
      obtain ⟨q', h', -⟩ := h.step bump_honest hstep
      refine ⟨Sched.spawn bump S, q', ?_, h', ?_, ?_, ?_, ?_⟩
      · rw [List.replicate_succ', exec_snoc]
        exact ⟨S, hrun, hstep⟩
      · rw [hspawn]
        exact hpc
      · rw [hspawn]
        have hended := h.lives.ended
        unfold Sys.unfinished at hcount ⊢
        simp only [List.countP_append, List.countP_singleton, Event.isRet]
        simp only [Bool.false_eq_true, if_false, Nat.add_zero]
        omega
      · rw [hspawn]
        exact hr'
      · rw [hspawn]
        calc s'.mem_ctx.1 ≤ S.s.mem_ctx.1 + 640 := hle
          _ ≤ 64 + 640 * k + 640 := Nat.add_le_add_right hctx 640
          _ = 64 + 640 * (k + 1) := by rw [Nat.mul_succ, Nat.add_assoc]

/-- **The promise is broken at `2 ^ 32` fibers**: that many spawns all succeed, and `active_count`
no longer counts them. -/
theorem active_count_wraps : ∃ s actions S, small = some s ∧
    exec (step bump) (boot s) actions = some S ∧ ¬ Law bump S := by
  obtain ⟨s, hs⟩ : ∃ s, small = some s := ⟨_, rfl⟩
  obtain ⟨S, q, hrun, h, -, hcount, -⟩ := bump_seeds hs (2 ^ 32) (Nat.le_refl _)
  refine ⟨s, _, S, hs, hrun, fun hlaw => ?_⟩
  obtain ⟨q', hq', hactive, -⟩ := hlaw.fibers
  obtain rfl : q' = q := hq'.unique h.rep.queue
  rw [← unreturned_length, ← h.unfinished_eq, hcount] at hactive
  have := S.s.active_count.toNat_lt
  omega

end CFiber.Sched
