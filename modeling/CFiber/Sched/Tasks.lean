/-
  CFiber.Sched.Tasks — what each function of the scheduler does to its tasks.

  `Rep s q` ties the structure to the fibers: `q` is the ready queue, the fibers are those of `q`,
  the current one and the zombie, and the two pools hold exactly the fibers' task and stack blocks.
  Each function gets one lemma, in terms of `q`:

    • `cfiber_scheduler_spawn_spec` — a fresh fiber at the back, or nothing changes;
    • `free_zombie_spec`            — the zombie's two blocks are released;
    • `dispatch_spec`               — the head of the queue becomes the current fiber;
    • `builtin_return_hook_spec`    — the current fiber becomes the zombie;
    • `cfiber_yield_spec`           — the current fiber goes to the back, or nothing changes.
-/
import CFiber.Sched.Scheduler

namespace CFiber.Sched

open CFiber.Base CFiber.Memory

variable {T : Target} {γ : Type} {B : Backing γ} {out : γ → List Region} {good : γ → Prop}
  {s : Scheduler T γ} {q : List Nat}

/-! ## §1. The fibers of a scheduler. -/

/-- The block a task's stack lies in. -/
def stack_block (m : TaskMem) (t : Nat) : Nat := (m.stack t).mem_base.getD 0

/-- The fibers, by their tasks: ready, current, zombie. -/
def tasks (s : Scheduler T γ) (q : List Nat) : List Nat := q ++ s.current.toList ++ s.zombie.toList

/-- The fibers that have not returned. -/
def unreturned (s : Scheduler T γ) (q : List Nat) : List Nat := q ++ s.current.toList

/-- **The fibers behind the structure.** -/
structure Rep (out : γ → List Region) (good : γ → Prop) (s : Scheduler T γ) (q : List Nat) :
    Prop where
  twin : Twin out good s.task_alloc s.stack_alloc s.mem_ctx (tasks s q)
    ((tasks s q).map (stack_block s.mem))
  based : ∀ t ∈ tasks s q, (s.mem.stack t).mem_base = some (stack_block s.mem t)
  queue : Fifo s.mem.next s.ready_head s.ready_tail q
  count : s.active_count = UInt32.ofNat (unreturned s q).length

theorem Rep.nodup (h : Rep out good s q) : (tasks s q).Nodup := h.twin.fst.nodup

theorem Rep.stacks_nodup (h : Rep out good s q) :
    ((tasks s q).map (stack_block s.mem)).Nodup := h.twin.snd.nodup

/-- The live blocks of the task pool. -/
theorem Rep.live_task (h : Rep out good s q) (p : Nat) :
    Live s.task_alloc p ↔ p ∈ tasks s q := (h.twin.fst.live p).symm

/-- The live blocks of the stack pool. -/
theorem Rep.live_stack (h : Rep out good s q) (p : Nat) :
    Live s.stack_alloc p ↔ ∃ t ∈ tasks s q, (s.mem.stack t).mem_base = some p := by
  rw [show Live s.stack_alloc p ↔ p ∈ (tasks s q).map (stack_block s.mem) from
    (h.twin.snd.live p).symm, List.mem_map]
  constructor
  · rintro ⟨t, ht, rfl⟩
    exact ⟨t, ht, h.based t ht⟩
  · rintro ⟨t, ht, he⟩
    exact ⟨t, ht, Option.some.inj ((h.based t ht).symm.trans he)⟩

theorem Rep.ready_head (h : Rep out good s q) : s.ready_head = q.head? := h.queue.head

/-- The fibers may be listed in any order. -/
theorem Rep.of_perm {l : List Nat} (hp : l.Perm (tasks s q))
    (ht : Twin out good s.task_alloc s.stack_alloc s.mem_ctx l (l.map (stack_block s.mem)))
    (hb : ∀ t ∈ l, (s.mem.stack t).mem_base = some (stack_block s.mem t))
    (hq : Fifo s.mem.next s.ready_head s.ready_tail q)
    (hc : s.active_count = UInt32.ofNat (unreturned s q).length) : Rep out good s q :=
  ⟨ht.perm hp (hp.map _), fun t h => hb t (hp.mem_iff.mpr h), hq, hc⟩

/-- Both pools are configured as multislabs are, for at least 256 bytes of stack. -/
theorem cfiber_scheduler_init_ext_spec {sizeof_task : Nat} {config : Config} {m : TaskMem} {c : γ}
    (hinit : cfiber_scheduler_init_ext T sizeof_task config m c = some s) :
    ∃ per task_alloc stack_alloc,
      cfiber_multislab_init_ext T (align_up T sizeof_task T.CACHE_LINE_SIZE) per config.max_slabs 1
        = some task_alloc ∧
      cfiber_multislab_init_ext T
        (align_up T (T.wrap (config.stack_size + T.ASAN_REDZONE)) T.CACHE_LINE_SIZE) per
        config.max_slabs 1 = some stack_alloc ∧
      (config.fibers_per_slab ≠ 0 → per = config.fibers_per_slab) ∧
      s = ⟨task_alloc, stack_alloc, none, none, none, none, config.stack_size, 0, m, c⟩ := by
  unfold cfiber_scheduler_init_ext at hinit
  by_cases hsize : config.stack_size = 0 ∨ config.stack_size < 256
  · rw [if_pos hsize] at hinit
    exact absurd hinit (by simp)
  · rw [if_neg hsize] at hinit
    have hper : ∃ per, (if config.fibers_per_slab ≠ 0 then config.fibers_per_slab
        else DEFAULT_PER_SLAB) = per ∧
          (config.fibers_per_slab ≠ 0 → per = config.fibers_per_slab) :=
      ⟨_, rfl, fun h => if_pos h⟩
    obtain ⟨per, hdef, hgiven⟩ := hper
    simp only [hdef] at hinit
    cases h₁ : cfiber_multislab_init_ext T (align_up T sizeof_task T.CACHE_LINE_SIZE) per
        config.max_slabs 1 with
    | none => rw [h₁] at hinit; exact absurd hinit (by simp)
    | some task_alloc =>
        simp only [h₁] at hinit
        cases h₂ : cfiber_multislab_init_ext T
            (align_up T (T.wrap (config.stack_size + T.ASAN_REDZONE)) T.CACHE_LINE_SIZE) per
            config.max_slabs 1 with
        | none => rw [h₂] at hinit; exact absurd hinit (by simp)
        | some stack_alloc =>
            simp only [h₂, Option.some.injEq] at hinit
            exact ⟨per, task_alloc, stack_alloc, h₁, h₂, hgiven, hinit.symm⟩

/-- A fresh scheduler has no fibers. -/
theorem Rep.start {sizeof_task : Nat} {config : Config} {m : TaskMem} {c : γ}
    (hinit : cfiber_scheduler_init_ext T sizeof_task config m c = some s) (hg : good c)
    (hout : out c = []) : Rep out good s [] ∧ s.current = none ∧ s.zombie = none := by
  obtain ⟨per, task_alloc, stack_alloc, h₁, h₂, -, rfl⟩ := cfiber_scheduler_init_ext_spec hinit
  exact ⟨⟨Twin.start h₁ h₂ hg hout, by simp [tasks], Fifo.empty _, rfl⟩, rfl, rfl⟩

/-! ## §2. `cfiber_scheduler_spawn`. -/

/-- Nothing a client can see is different. -/
structure Untouched (s s' : Scheduler T γ) : Prop where
  current : s'.current = s.current
  zombie : s'.zombie = s.zombie
  ready_head : s'.ready_head = s.ready_head
  ready_tail : s'.ready_tail = s.ready_tail
  active_count : s'.active_count = s.active_count
  mem : s'.mem = s.mem

theorem Rep.untouched {s' : Scheduler T γ} (h : Rep out good s q) (hu : Untouched s s')
    (ht : Twin out good s'.task_alloc s'.stack_alloc s'.mem_ctx (tasks s q)
      ((tasks s q).map (stack_block s.mem))) : Rep out good s' q := by
  have htasks : tasks s' q = tasks s q := by unfold tasks; rw [hu.current, hu.zombie]
  have hlive : unreturned s' q = unreturned s q := by unfold unreturned; rw [hu.current]
  refine ⟨?_, ?_, ?_, ?_⟩
  · rw [htasks, hu.mem]
    exact ht
  · rw [htasks, hu.mem]
    exact h.based
  · rw [hu.mem, hu.ready_head, hu.ready_tail]
    exact h.queue
  · rw [hu.active_count, hlive]
    exact h.count

/-- What a successful spawn does: `t` is the new fiber. -/
structure Started (s s' : Scheduler T γ) (func t : Nat) : Prop where
  current : s'.current = s.current
  zombie : s'.zombie = s.zombie
  active_count : s'.active_count = s.active_count + 1
  entry : s'.mem.entry = Function.update s.mem.entry t func
  stack : ∀ u, u ≠ t → s'.mem.stack u = s.mem.stack u

theorem tasks_snoc (s : Scheduler T γ) (q : List Nat) (t : Nat) :
    (t :: tasks s q).Perm (tasks s (q ++ [t])) := by
  unfold tasks
  rw [List.append_assoc, List.append_assoc, List.append_assoc]
  exact List.perm_middle.symm

theorem ofNat_succ (n : Nat) : UInt32.ofNat n + 1 = UInt32.ofNat (n + 1) := by
  rw [UInt32.ofNat_add]
  rfl

theorem unreturned_snoc_length (s : Scheduler T γ) (q : List Nat) (t : Nat) :
    (unreturned s (q ++ [t])).length = (unreturned s q).length + 1 := by
  simp only [unreturned, List.length_append, List.length_cons, List.length_nil]
  omega

/-- The stack blocks of the tasks in `l` do not depend on what task `t` holds. -/
theorem stack_block_map_congr {m m' : TaskMem} {t : Nat} {l : List Nat}
    (hm : ∀ u, u ≠ t → m'.stack u = m.stack u) (ht : t ∉ l) :
    l.map (stack_block m') = l.map (stack_block m) := by
  apply List.map_congr_left
  intro u hu
  have hne : u ≠ t := fun e => ht (e ▸ hu)
  unfold stack_block
  rw [hm u hne]

/-- The block and the stack become a ready fiber. -/
theorem task_start_spec {task mem : Nat} (func size : Nat)
    (ht : Twin out good s.task_alloc s.stack_alloc s.mem_ctx (task :: tasks s q)
      (mem :: (tasks s q).map (stack_block s.mem)))
    (hbased : ∀ t ∈ tasks s q, (s.mem.stack t).mem_base = some (stack_block s.mem t))
    (hqueue : Fifo s.mem.next s.ready_head s.ready_tail q)
    (hcount : s.active_count = UInt32.ofNat (unreturned s q).length) (htask : task ∉ tasks s q) :
    Rep out good (task_start s task (fixed_stack T mem size) func) (q ++ [task]) ∧
      Started s (task_start s task (fixed_stack T mem size) func) func task := by
  have hq : task ∉ q := fun hm => htask (by simp [tasks, hm])
  unfold task_start
  simp only [enqueue_ready_eq]
  refine ⟨⟨?_, ?_, ?_, ?_⟩, rfl, rfl, rfl, rfl, fun u hne => Function.update_of_ne hne _ _⟩
  · refine ht.perm (tasks_snoc s q task) ?_
    refine List.Perm.trans ?_ ((tasks_snoc s q task).map _)
    rw [List.map_cons]
    refine List.Perm.of_eq (List.cons_eq_cons.mpr ⟨by simp [stack_block, fixed_stack], ?_⟩)
    refine (stack_block_map_congr (fun u hne => ?_) htask).symm
    exact Function.update_of_ne hne _ _
  · intro u hu
    rcases List.mem_cons.mp ((tasks_snoc s q task).mem_iff.mpr hu) with rfl | hmem
    · simp [stack_block, fixed_stack]
    · have hne : u ≠ task := fun e => htask (e ▸ hmem)
      simp only [stack_block, Function.update_of_ne hne]
      exact hbased u hmem
  · refine Fifo.push (hqueue.congr fun u hu => ?_) hq
    have hne : u ≠ task := fun e => hq (e ▸ hu)
    exact Function.update_of_ne hne _ _
  · show s.active_count + 1 = UInt32.ofNat (unreturned s (q ++ [task])).length
    rw [hcount, unreturned_snoc_length, ofNat_succ]

/-- The pools are not involved. -/
theorem task_start_pools (s : Scheduler T γ) (task : Nat) (stack : Stack) (func : Nat) :
    (task_start s task stack func).task_alloc = s.task_alloc ∧
      (task_start s task stack func).stack_alloc = s.stack_alloc ∧
      (task_start s task stack func).mem_ctx = s.mem_ctx := by
  simp only [task_start, enqueue_ready_eq, and_self]

/-- **Spawn**: a fresh fiber at the back of the queue, or nothing changes. -/
theorem cfiber_scheduler_spawn_spec (H : Honest T B out good) (h : Rep out good s q)
    (func : Nat) :
    (∃ t s', cfiber_scheduler_spawn B s func = (true, s') ∧ t ∉ tasks s q ∧
      Rep out good s' (q ++ [t]) ∧ Started s s' func t) ∨
    ∃ s', cfiber_scheduler_spawn B s func = (false, s') ∧ Rep out good s' q ∧ Untouched s s' := by
  rcases h.twin.alloc H with ⟨task, ms, c, heq₁, -, hfresh, ht₁⟩ | ⟨ms, c, heq₁, -, ht₁, -⟩
  · rcases ht₁.swap.alloc H with ⟨mem, ms', c', heq₂, -, -, ht₂⟩ | ⟨ms', c', heq₂, -, ht₂, -⟩
    · obtain ⟨hrep, hstart⟩ := task_start_spec func ms'.block_size
        (s := { s with task_alloc := ms, stack_alloc := ms', mem_ctx := c' }) ht₂.swap h.based
        h.queue h.count hfresh
      refine Or.inl ⟨task, _, ?_, hfresh, hrep, ⟨hstart.current, hstart.zombie,
        hstart.active_count, hstart.entry, hstart.stack⟩⟩
      simp only [cfiber_scheduler_spawn, heq₁, cfiber_fixed_stack_alloc, heq₂]
    · -- the task block goes back
      obtain ⟨ms'', c'', heq₃, -, ht₃⟩ := ht₂.swap.release H List.mem_cons_self
      rw [List.erase_cons_head] at ht₃
      have hu : Untouched s { s with task_alloc := ms'', stack_alloc := ms', mem_ctx := c'' } :=
        ⟨rfl, rfl, rfl, rfl, rfl, rfl⟩
      refine Or.inr ⟨_, ?_, h.untouched hu ht₃, hu⟩
      simp only [cfiber_scheduler_spawn, heq₁, cfiber_fixed_stack_alloc, heq₂, heq₃]
  · have hu : Untouched s { s with task_alloc := ms, mem_ctx := c } :=
      ⟨rfl, rfl, rfl, rfl, rfl, rfl⟩
    refine Or.inr ⟨_, ?_, h.untouched hu ht₁, hu⟩
    simp only [cfiber_scheduler_spawn, heq₁]

/-! ## §3. The loop: the zombie, and the next fiber. -/

/-- **The zombie is freed**: its two blocks go back, and nothing else changes. -/
theorem free_zombie_spec (H : Honest T B out good) (h : Rep out good s q) :
    ∃ s', free_zombie B s = some s' ∧ Rep out good s' q ∧ s'.zombie = none ∧
      s'.current = s.current ∧ s'.ready_head = s.ready_head ∧ s'.active_count = s.active_count ∧
      s'.mem = s.mem := by
  cases hz : s.zombie with
  | none => exact ⟨s, by simp only [free_zombie, hz], h, hz, rfl, rfl, rfl, rfl⟩
  | some t =>
      have hsplit : (tasks s q).Perm (t :: unreturned s q) := by
        unfold tasks unreturned
        rw [hz]
        exact List.perm_append_comm
      have hmap := hsplit.map (stack_block s.mem)
      rw [List.map_cons] at hmap
      have ht := h.twin.perm hsplit hmap
      obtain ⟨ms₁, c₁, heq₁, -, ht₁⟩ := ht.swap.release H List.mem_cons_self
      obtain ⟨ms₂, c₂, heq₂, -, ht₂⟩ := ht₁.swap.release H List.mem_cons_self
      rw [List.erase_cons_head, List.erase_cons_head] at ht₂
      refine ⟨{ s with task_alloc := ms₂, stack_alloc := ms₁, mem_ctx := c₂, zombie := none }, ?_,
        Rep.of_perm (l := unreturned s q) ?_ ht₂ ?_ h.queue h.count, rfl, rfl, rfl, rfl, rfl⟩
      · simp only [free_zombie, hz, task_free, cfiber_fixed_stack_release]
        rw [show (s.mem.stack t).mem_base.getD 0 = stack_block s.mem t from rfl, heq₁]
        simp only [heq₂, Option.map_some]
      · show (unreturned s q).Perm (unreturned s q ++ [])
        rw [List.append_nil]
      · intro u hu
        exact h.based u (hsplit.mem_iff.mpr (List.mem_cons_of_mem t hu))

/-- **Dispatch**: the head of the queue becomes the current fiber. -/
theorem dispatch_spec {t : Nat} (h : Rep out good s (t :: q)) (hc : s.current = none) :
    ∃ s', dequeue_ready s = (some t, s') ∧ Rep out good { s' with current := some t } q ∧
      s'.zombie = s.zombie ∧ s'.mem.entry = s.mem.entry ∧ s'.mem.stack = s.mem.stack := by
  refine ⟨_, dequeue_ready_eq h.ready_head, Rep.of_perm ?_ h.twin h.based h.queue.pop ?_, rfl, rfl,
    rfl⟩
  · unfold tasks
    rw [hc]
    show (t :: q ++ [] ++ s.zombie.toList).Perm (q ++ [t] ++ s.zombie.toList)
    rw [List.append_nil]
    exact (List.perm_append_singleton t q).symm.append_right _
  · have hcount := h.count
    unfold unreturned at hcount ⊢
    rw [hc] at hcount
    rw [hcount]
    simp

/-! ## §4. The fibers: return and yield. -/

/-- **Return**: the current fiber becomes the zombie, and keeps its two blocks. -/
theorem builtin_return_hook_spec {t : Nat} (h : Rep out good s q) (hc : s.current = some t)
    (hz : s.zombie = none) : Rep out good (builtin_return_hook s) q := by
  refine Rep.of_perm ?_ h.twin h.based h.queue ?_
  · unfold tasks builtin_return_hook
    rw [hc, hz]
    simp
  · have hcount := h.count
    unfold unreturned at hcount
    rw [hc] at hcount
    show s.active_count - 1 = UInt32.ofNat (q ++ []).length
    rw [hcount, List.length_append, Option.toList_some, List.length_singleton, ← ofNat_succ,
      List.append_nil]
    exact UInt32.add_sub_cancel _ _

/-- **Yield**: the current fiber goes to the back of the queue, or it is the only one. -/
theorem cfiber_yield_spec {t : Nat} (h : Rep out good s q) (hc : s.current = some t)
    (hz : s.zombie = none) :
    (q = [] ∧ cfiber_yield s = (false, s)) ∨
    ∃ s', cfiber_yield s = (true, s') ∧ Rep out good s' (q ++ [t]) ∧ q ≠ [] ∧ s'.current = none ∧
      s'.zombie = none ∧ s'.mem.entry = s.mem.entry ∧ s'.mem.stack = s.mem.stack := by
  have hhead := h.ready_head
  cases q with
  | nil => exact Or.inl ⟨rfl, by simp only [cfiber_yield, hc, hhead, List.head?_nil]⟩
  | cons u q =>
      have ht : t ∉ u :: q := by
        have hnd := h.nodup
        unfold tasks at hnd
        rw [hc, hz] at hnd
        intro hm
        simp only [Option.toList_some, Option.toList_none, List.append_nil] at hnd
        exact (List.nodup_append.mp hnd).2.2 t hm t (by simp) rfl
      refine Or.inr ⟨{ enqueue_ready s t with current := none }, ?_, ?_, by simp, rfl, ?_, ?_, ?_⟩
      · simp only [cfiber_yield, hc, hhead, List.head?_cons]
      · rw [enqueue_ready_eq]
        refine Rep.of_perm ?_ h.twin h.based (h.queue.push ht) ?_
        · unfold tasks
          rw [hc, hz]
          simp
        · show s.active_count = UInt32.ofNat (u :: q ++ [t] ++ []).length
          rw [h.count]
          unfold unreturned
          rw [hc]
          simp
      · rw [enqueue_ready_eq]
        exact hz
      · rw [enqueue_ready_eq]
      · rw [enqueue_ready_eq]

end CFiber.Sched
