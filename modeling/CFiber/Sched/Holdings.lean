/-
  CFiber.Sched.Holdings — the backing memory of the scheduler.

  The task pool and the stack pool take their slabs from one allocator.  `MemoryOk` says what its log
  shows in one state: every free so far returned a region that was outstanding, with the size it was
  asked for with; what is outstanding are the nodes and slabs of the two pools; each block a fiber
  holds lies in an outstanding region and apart from every other; and `cfiber_scheduler_destroy`
  leaves nothing outstanding.

  `memory_ok` proves it for every run, whatever the allocator refuses, and however many fibers are
  alive when the scheduler is destroyed.
-/
import CFiber.Memory.Ledger
import CFiber.Sched.Ownership

namespace CFiber.Sched

open CFiber.Base CFiber.Memory

variable {T : Target} {γ : Type} {B : Backing γ} {out : γ → List Region} {good : γ → Prop}

/-! ## §1. `cfiber_scheduler_destroy`. -/

/-- The trailing `memset` is left out: nothing reads the struct afterwards. -/
def cfiber_scheduler_destroy (B : Backing γ) (sched : Scheduler T γ) : Scheduler T γ :=
  let (task_alloc, c) := cfiber_multislab_destroy B sched.task_alloc sched.mem_ctx
  let (stack_alloc, c) := cfiber_multislab_destroy B sched.stack_alloc c
  { sched with task_alloc := task_alloc, stack_alloc := stack_alloc, mem_ctx := c }

/-! ## §2. The blocks the fibers hold. -/

/-- `r` is the task block of a fiber. -/
def TaskBlock (s : Scheduler T γ) (r : Region) : Prop :=
  Live s.task_alloc r.1 ∧ r.2 = s.task_alloc.block_size

/-- `r` is the stack block of a fiber. -/
def StackBlock (s : Scheduler T γ) (r : Region) : Prop :=
  Live s.stack_alloc r.1 ∧ r.2 = s.stack_alloc.block_size

/-- `r` is a block that a fiber holds. -/
def Held (s : Scheduler T γ) (r : Region) : Prop := TaskBlock s r ∨ StackBlock s r

/-- **The backing memory is in order.** -/
structure MemoryOk (B : Backing γ) (s : Scheduler T (γ × List MemCall)) : Prop where
  /-- Every free so far matched, and the pools hold what is outstanding. -/
  balanced : ∃ l, outstanding s.mem_ctx.2 = some l ∧
    l.Perm (regions s.task_alloc ++ regions s.stack_alloc) ∧
    ∀ r, Held s r → ∃ k ∈ l, k.1 ≤ r.1 ∧ r.1 + r.2 ≤ k.1 + k.2
  apart : ∀ r r', Held s r → Held s r' → r ≠ r' → Apart r r'
  destroyed : outstanding (cfiber_scheduler_destroy (recorded B) s).mem_ctx.2 = some []

/-- A block a fiber holds lies in a region of its pool. -/
theorem Rep.held_region {s : Scheduler T γ} {q : List Nat} (h : Rep out good s q) {r : Region}
    (hr : Held s r) : ∃ k ∈ regions s.task_alloc ++ regions s.stack_alloc,
      k.1 ≤ r.1 ∧ r.1 + r.2 ≤ k.1 + k.2 := by
  rcases hr with ⟨hlive, hsize⟩ | ⟨hlive, hsize⟩
  · obtain ⟨as, fs, hrep⟩ := h.twin.fst.rep
    obtain ⟨k, hk, hlo, hhi⟩ := Rep.live_region s.task_alloc hrep hlive
    refine ⟨k, List.mem_append_left _ hk, hlo, ?_⟩
    rw [hsize]
    exact hhi
  · obtain ⟨as, fs, hrep⟩ := h.twin.snd.rep
    obtain ⟨k, hk, hlo, hhi⟩ := Rep.live_region s.stack_alloc hrep hlive
    refine ⟨k, List.mem_append_right _ hk, hlo, ?_⟩
    rw [hsize]
    exact hhi

/-- Two blocks that fibers hold share no byte. -/
theorem Rep.held_apart {s : Scheduler T γ} {q : List Nat} (h : Rep out good s q)
    (hs : (out s.mem_ctx).Pairwise Apart) {r r' : Region} (hr : Held s r) (hr' : Held s r')
    (hne : r ≠ r') : Apart r r' := by
  obtain ⟨p, n⟩ := r
  obtain ⟨p', n'⟩ := r'
  obtain ⟨as, fs, hrep⟩ := h.twin.fst.rep
  obtain ⟨as', fs', hrep'⟩ := h.twin.snd.rep
  have hbase : n = n' → p ≠ p' := by
    rintro rfl rfl
    exact hne rfl
  rcases hr with ⟨hp, rfl⟩ | ⟨hp, rfl⟩ <;> rcases hr' with ⟨hp', rfl⟩ | ⟨hp', rfl⟩
  · exact hrep.live_apart h.twin.fst.own hp hp' (hbase rfl)
  · exact h.twin.apart hs hp hp'
  · exact (h.twin.apart hs hp' hp).symm
  · exact hrep'.live_apart h.twin.snd.own hp hp' (hbase rfl)

/-! ## §3. Every run. -/

/-- **The backing memory of every run.**  Over every allocator that hands out regions apart from the
outstanding ones. -/
theorem memory_ok (H : Honest T B out good) {sizeof_task : Nat} {config : Config} {m : TaskMem}
    {c : γ} {s : Scheduler T (γ × List MemCall)} {S : Sys T (γ × List MemCall)}
    (hinit : cfiber_scheduler_init_ext T sizeof_task config m (c, []) = some s) (hg : good c)
    (hout : out c = []) {actions : List Action}
    (hrun : exec (step (recorded B)) (boot s) actions = some S) : MemoryOk B S.s := by
  have HR := (recorded_honest H).spread
  obtain ⟨q, h⟩ := Inv.run HR hinit (show (good c ∧ Balanced out (c, [])) ∧ (out c).Pairwise Apart
    by rw [hout]; exact ⟨⟨hg, [], rfl, by rw [hout]⟩, List.Pairwise.nil⟩) hout hrun
  have htwin := h.rep.twin
  obtain ⟨⟨-, l, hl, hp⟩, hspread⟩ := htwin.fst.good.1
  have hheld := hp.trans htwin.held
  refine ⟨⟨l, hl, hheld, ?_⟩, fun r r' => h.rep.held_apart hspread, ?_⟩
  · intro r hr
    obtain ⟨k, hk, hrange⟩ := h.rep.held_region hr
    exact ⟨k, hheld.mem_iff.mpr hk, hrange⟩
  · obtain ⟨⟨⟨-, l', hl', hp'⟩, -⟩, hnil⟩ := htwin.destroy HR
    rw [hnil] at hp'
    show outstanding (cfiber_multislab_destroy (recorded B) S.s.stack_alloc
      (cfiber_multislab_destroy (recorded B) S.s.task_alloc S.s.mem_ctx).2).2.2 = some []
    rw [hl', hp'.eq_nil]

/-- The pools of `small`, over a log. -/
def small_recorded : Option (Scheduler lp64 ((Nat × List Region) × List MemCall)) :=
  cfiber_scheduler_init_ext lp64 120 ⟨256, 1, 0⟩ blank ((64, []), [])

theorem memory_ok_bump : ∃ s S, small_recorded = some s ∧
    exec (step (recorded bump)) (boot s) [.spawn, .spawn, .run, .turn, .yield, .turn, .finish, .turn]
      = some S ∧ MemoryOk bump S.s := by
  have hsome : (small_recorded.bind fun s => exec (step (recorded bump)) (boot s)
      [.spawn, .spawn, .run, .turn, .yield, .turn, .finish, .turn]).isSome = true := by
    decide +kernel
  obtain ⟨S, hS⟩ := Option.isSome_iff_exists.mp hsome
  obtain ⟨s, hs, hrun⟩ := Option.bind_eq_some_iff.mp hS
  exact ⟨s, S, hs, hrun, memory_ok bump_honest hs ⟨rfl, fun _ h => absurd h List.not_mem_nil⟩ rfl
    hrun⟩

end CFiber.Sched
