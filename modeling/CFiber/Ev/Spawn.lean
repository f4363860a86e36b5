/-
  CFiber.Ev.Spawn — the beginning and the end of a fiber.

    • `spawn_locked_spec` — a free block becomes a READY fiber with a fresh generation, or the
                            fibers are as they were;
    • `reap_spec`         — the completed fiber's registration, links, stack and block are
                            released;
    • `create_core`       — a fresh reactor satisfies both invariants.
-/
import CFiber.Ev.Pool

namespace CFiber.Ev

open CFiber.Base CFiber.Memory

variable {T : Target} {γ σ κ δ : Type}
variable {L : Libc γ} {out : γ → List Region} {good : γ → Prop}

/-! ## §1. Starting a fresh struct. -/

theorem fiber_start_eq (s : Reactor T γ σ κ) (f : Nat) :
    fiber_start s f =
      { s with
        mem := { s.mem with
          fiber_stack := Function.update s.mem.fiber_stack f (s.mem.stack f).usable_base
          fiber_stack_size :=
            Function.update s.mem.fiber_stack_size f (cfiber_stack_usable_size T (s.mem.stack f))
          reg_fd := Function.update s.mem.reg_fd f (-1)
          wait_fd := Function.update s.mem.wait_fd f (-1)
          timer_i := Function.update s.mem.timer_i f none
          ctx := Function.update s.mem.ctx f .entry
          live_next := Function.update s.mem.live_next f s.live_head
          live_prev := consPrev s.mem.live_prev s.live_head f
          next := snocNext s.mem.next s.ready_tail f
          state := Function.update s.mem.state f .FB_READY }
        live_head := some f
        ready_head := snocHead s.ready_head s.ready_tail f
        ready_tail := some f
        active := s.active + 1
        enqueued := Function.update s.enqueued f (s.enqueued f + 1) } := by
  unfold fiber_start
  dsimp only
  rw [live_link_eq, enqueue_eq]

section
variable {heap : Nat → Nat} {len cap : Nat} {timer_i : Nat → Option Nat}
variable {deadline_ns : Nat → UInt64}
variable {state : Nat → FiberState} {park : Nat → ParkKind} {ctx : Nat → Ctx}
variable {wait_fd reg_fd : Nat → Int} {l : List Nat} {f : Nat}

theorem Timed.spawn (h : Timed heap len cap timer_i deadline_ns state l)
    (hf : state f = .FB_FREE) :
    Timed heap len cap (Function.update timer_i f none) deadline_ns
      (Function.update state f .FB_READY) (f :: l) := by
  have hne : ∀ g, Slotted heap len g → g ≠ f := by
    rintro g hg rfl
    rw [h.parked g hg] at hf
    exact absurd hf (by simp)
  refine ⟨?_, ?_, ?_, h.room, h.order⟩
  · intro i hi
    rw [Function.update_of_ne (hne _ ⟨i, hi, rfl⟩)]
    exact h.index i hi
  · intro g hg
    rw [Function.update_of_ne (hne g hg)]
    exact h.parked g hg
  · intro g hg i hi
    by_cases hgf : g = f
    · subst hgf; simp at hi
    · rw [Function.update_of_ne hgf] at hi
      exact h.slotted g ((List.mem_cons.mp hg).resolve_left hgf) i hi

theorem Waits.spawn (h : Waits state park ctx wait_fd reg_fd l) :
    Waits (Function.update state f .FB_READY) park (Function.update ctx f .entry)
      (Function.update wait_fd f (-1)) (Function.update reg_fd f (-1)) (f :: l) := by
  refine ⟨?_, ?_, ?_⟩
  · intro g hg hp
    by_cases hgf : g = f
    · subst hgf; simp at hg
    · simp only [Function.update_of_ne hgf] at hg ⊢
      exact h.holds g hg hp
  · intro g hg
    by_cases hgf : g = f
    · subst hgf; simp at hg
    · simp only [Function.update_of_ne hgf] at hg ⊢
      exact h.cont g hg
  · intro g hg hw
    by_cases hgf : g = f
    · subst hgf; simp at hw
    · simp only [Function.update_of_ne hgf] at hw ⊢
      exact h.idle g ((List.mem_cons.mp hg).resolve_left hgf) hw

end

/-- **The fresh fiber joins every list.** -/
theorem fiber_start_core {s : Reactor T γ σ κ} {l q : List Nat} (h : Core s l q) {f : Nat}
    (hf : f ∉ l) : Core (fiber_start s f) (f :: l) (q ++ [f]) := by
  have hst : s.mem.state f = .FB_FREE := by
    by_contra hne
    exact hf (h.mem_live hne)
  have hne : ∀ g ∈ l, g ≠ f := fun g hg e => hf (e ▸ hg)
  have hkeep : Owners s.fd_owner s.fd_owner_cap (Function.update s.mem.reg_fd f (-1)) l :=
    h.owners.congr fun g hg => Function.update_of_ne (hne g hg) _ _
  rw [fiber_start_eq]
  exact ⟨h.roster.spawn hst, h.links.push hf, h.timed.spawn hst,
    hkeep.cons hf (Function.update_self _ _ _), h.waits.spawn⟩

/-! ## §2. Spawn. -/

/-- The view of a fiber that was just spawned. -/
def FiberView.spawned (generation : UInt64) (enqueued : Nat) (stack : Stack) : FiberView where
  state := .FB_READY
  park := .PARK_FD
  ctx := .entry
  wait_fd := -1
  wait_status := .READY
  wake_pending := false
  generation := generation
  enqueued := enqueued
  deadline := none
  stack := stack

/-- What no spawn touches, and what it may only add to. -/
structure Around (out : γ → List Region) (s s' : Reactor T γ σ κ) (l : List Nat) : Prop where
  view : ∀ g ∈ l, view s' g = view s g
  regs : ∀ g ∈ l, s'.mem.reg_fd g = s.mem.reg_fd g
  blocks : ∀ p, IsBlock s.fibers p → IsBlock s'.fibers p
  held : ∀ r ∈ out s.libc, r ∈ out s'.libc
  clock : s'.clock = s.clock
  current : s'.current = s.current
  zombie : s'.zombie = s.zombie
  epoll : s'.epoll = s.epoll

/-- A spawn that made `f` a fiber. -/
structure Spawns (out : γ → List Region) (good : γ → Prop) (P : StackPool σ)
    (s s' : Reactor T γ σ κ) (f : Nat) (l q : List Nat) : Prop where
  fresh : f ∉ l
  core : Core s' (f :: l) (q ++ [f])
  pool : Pool out good s' (f :: l)
  around : Around out s s' l
  new : view s' f = FiberView.spawned (UInt64.ofNat (s.repooled f)) (s.enqueued f + 1)
    (P.cfiber_growable_stack_alloc s.stack_pool).1
  stack : (P.cfiber_growable_stack_alloc s.stack_pool).1.mem_base ≠ none
  stack_pool : s'.stack_pool = (P.cfiber_growable_stack_alloc s.stack_pool).2
  reg : s'.mem.reg_fd f = -1
  repooled : s'.repooled = s.repooled

/-- A spawn that was refused; at most a block went out of the pool and back. -/
structure Refuses (out : γ → List Region) (good : γ → Prop) (P : StackPool σ)
    (s s' : Reactor T γ σ κ) (l q : List Nat) : Prop where
  core : Core s' l q
  pool : Pool out good s' l
  around : Around out s s' l
  stack_pool : s'.stack_pool = s.stack_pool ∨
    ((P.cfiber_growable_stack_alloc s.stack_pool).1.mem_base = none ∧
      s'.stack_pool = (P.cfiber_growable_stack_alloc s.stack_pool).2)
  repooled : s'.repooled = s.repooled ∨
    ∃ f, f ∉ l ∧ s'.repooled = Function.update s.repooled f (s.repooled f + 1)

theorem view_of_read {s s' : Reactor T γ σ κ} {g : Nat} (hr : s'.mem.read g = s.mem.read g)
    (he : s'.enqueued g = s.enqueued g) : view s' g = view s g := by
  have h1 : s'.mem.state g = s.mem.state g := congrArg FiberStruct.state hr
  have h2 : s'.mem.park g = s.mem.park g := congrArg FiberStruct.park hr
  have h3 : s'.mem.ctx g = s.mem.ctx g := congrArg FiberStruct.ctx hr
  have h4 : s'.mem.wait_fd g = s.mem.wait_fd g := congrArg FiberStruct.wait_fd hr
  have h5 : s'.mem.wait_status g = s.mem.wait_status g := congrArg FiberStruct.wait_status hr
  have h6 : s'.mem.wake_pending g = s.mem.wake_pending g := congrArg FiberStruct.wake_pending hr
  have h7 : s'.mem.generation g = s.mem.generation g := congrArg FiberStruct.generation hr
  have h8 : s'.mem.timer_i g = s.mem.timer_i g := congrArg FiberStruct.timer_i hr
  have h9 : s'.mem.deadline_ns g = s.mem.deadline_ns g := congrArg FiberStruct.deadline_ns hr
  have h10 : s'.mem.stack g = s.mem.stack g := congrArg FiberStruct.stack hr
  simp only [view, h1, h2, h3, h4, h5, h6, h7, h8, h9, h10, he]

/-- The struct `f` in `s` with its stack descriptor stored. -/
def stacked (s : Reactor T γ σ κ) (f : Nat) (stack : Stack) (sp : σ) : Reactor T γ σ κ :=
  { s with
    stack_pool := sp
    mem := { s.mem with stack := Function.update s.mem.stack f stack } }

/-- A stack for a struct that is not live is nobody's business. -/
theorem Core.stacked {s : Reactor T γ σ κ} {l q : List Nat} (h : Core s l q) (f : Nat)
    (stack : Stack) (sp : σ) : Core (stacked s f stack sp) l q :=
  ⟨h.roster, h.links, h.timed, h.owners, h.waits⟩

theorem Pool.stacked {s : Reactor T γ σ κ} {l : List Nat} (h : Pool out good s l) (f : Nat)
    (stack : Stack) (sp : σ) : Pool out good (stacked s f stack sp) l :=
  ⟨h.rep, h.own, h.sound, h.live, h.reserve, h.generation, h.fresh⟩

/-- `spawn_locked` once a struct was obtained. -/
theorem spawn_locked_eq (P : StackPool σ) {s s₁ : Reactor T γ σ κ} {f : Nat} {stack : Stack} {sp : σ}
    (h : fiber_obtain L s = (some f, s₁))
    (hst : P.cfiber_growable_stack_alloc s₁.stack_pool = (stack, sp)) :
    spawn_locked L P s =
      if stack.mem_base = none then (none, fiber_repool L (stacked s₁ f stack sp) f)
      else (some ⟨some f, (fiber_start (stacked s₁ f stack sp) f).mem.generation f⟩,
        fiber_start (stacked s₁ f stack sp) f) := by
  unfold spawn_locked
  simp only [h, hst]
  cases stack.mem_base <;> rfl

/-- **Spawn.**  Refused by the pool, refused by the stack allocator, or done. -/
theorem spawn_locked_spec (H : LibcOk T L out good) (P : StackPool σ) {s : Reactor T γ σ κ}
    {l q : List Nat} (h : Core s l q) (hp : Pool out good s l) :
    (∃ s', spawn_locked L P s = (none, s') ∧ Refuses out good P s s' l q) ∨
    ∃ f s', spawn_locked L P s = (some ⟨some f, UInt64.ofNat (s.repooled f)⟩, s') ∧
      Spawns out good P s s' f l q := by
  obtain ⟨ms, m, c, hsame, hfree, hblk, hheld, hres⟩ := fiber_obtain_spec H h hp
  have hcore := h.reread hsame hfree ms c
  rcases hres with ⟨heq, hpool⟩ | ⟨f, heq, hf, hread, hpool⟩
  · left
    refine ⟨_, by unfold spawn_locked; rw [heq], hcore, hpool,
      ⟨?_, ?_, hblk, hheld, rfl, rfl, rfl, rfl⟩, Or.inl rfl, Or.inl rfl⟩
    · exact fun g hg => view_of_read (hsame g hg) rfl
    · exact fun g hg => congrArg FiberStruct.reg_fd (hsame g hg)
  rcases hst : P.cfiber_growable_stack_alloc s.stack_pool with ⟨stack, sp⟩
  rw [spawn_locked_eq P heq hst]
  have hne : ∀ g ∈ l, g ≠ f := fun g hg e => hf (e ▸ hg)
  -- the state once the stack descriptor is stored
  have hcore₁ := hcore.stacked f stack sp
  have hpool₁ := hpool.stacked f stack sp
  have hview : ∀ g ∈ l, view (stacked { s with fibers := ms, mem := m, libc := c } f stack sp) g
      = view s g := by
    intro g hg
    have hread : view { s with fibers := ms, mem := m, libc := c } g = view s g :=
      view_of_read (hsame g hg) rfl
    rw [← hread]
    simp [view, stacked, hne g hg]
  have hregs : ∀ g ∈ l, m.reg_fd g = s.mem.reg_fd g := fun g hg =>
    congrArg FiberStruct.reg_fd (hsame g hg)
  by_cases hbase : stack.mem_base = none
  · left
    rw [if_pos hbase]
    obtain ⟨ms', hrep, hblk', hpool'⟩ := fiber_repool_spec H hpool₁
      (List.nodup_cons.mpr ⟨hf, h.roster.nodup⟩) (List.mem_cons_self (a := f) (l := l))
    rw [List.erase_cons_head] at hpool'
    refine ⟨_, rfl, ?core, hpool', ⟨?view, ?regs, ?blocks, ?held, ?clock, ?current, ?zombie,
      ?epoll⟩, Or.inr ⟨?unset, ?stack_pool⟩,
      Or.inr ⟨f, hf, ?repooled⟩⟩
    case core =>
      rw [hrep]
      -- the struct was free, so clearing its state changes nothing
      have hst : Function.update m.state f .FB_FREE = m.state := by
        rw [← hfree f hf]
        exact Function.update_eq_self f _
      refine ⟨?_, hcore₁.links, ?_, hcore₁.owners, ?_⟩
      · show Roster m.next _ _ (Function.update m.state f .FB_FREE) _ _ _ _ l q
        rw [hst]
        exact hcore₁.roster
      · show Timed _ _ _ m.timer_i m.deadline_ns (Function.update m.state f .FB_FREE) l
        rw [hst]
        exact hcore₁.timed
      · show Waits (Function.update m.state f .FB_FREE) m.park m.ctx m.wait_fd m.reg_fd l
        rw [hst]
        exact hcore₁.waits
    case view =>
      intro g hg
      rw [hrep, ← hview g hg]
      simp [view, hne g hg]
    case regs =>
      intro g hg
      rw [hrep]
      exact hregs g hg
    case blocks =>
      intro p hb
      rw [hrep]
      exact hblk' p (hblk p hb)
    case held =>
      rw [hrep]
      exact hheld
    case clock => rw [hrep]; rfl
    case current => rw [hrep]; rfl
    case zombie => rw [hrep]; rfl
    case epoll => rw [hrep]; rfl
    case unset => rw [hst]; exact hbase
    case stack_pool => rw [hrep, hst]; rfl
    case repooled => rw [hrep]; rfl
  · right
    rw [if_neg hbase]
    have hcore₂ := fiber_start_core hcore₁ hf
    have hgen : m.generation f = UInt64.ofNat (s.repooled f) :=
      congrArg FiberStruct.generation hread
    have hpool₂ : Pool out good (fiber_start (stacked
        { s with fibers := ms, mem := m, libc := c } f stack sp) f) (f :: l) := by
      rw [fiber_start_eq]
      exact ⟨hpool₁.rep, hpool₁.own, hpool₁.sound, hpool₁.live, hpool₁.reserve,
        hpool₁.generation, hpool₁.fresh⟩
    refine ⟨f, _, ?result, hf, hcore₂, hpool₂, ⟨?view, ?regs, ?blocks, ?held, ?clock, ?current,
      ?zombie, ?epoll⟩, ?new, ?stack, ?stack_pool, ?reg, ?repooled⟩
    case result =>
      rw [← hgen, fiber_start_eq]
      rfl
    case view =>
      intro g hg
      rw [fiber_start_eq, ← hview g hg]
      simp [view, hne g hg]
    case regs =>
      intro g hg
      rw [fiber_start_eq]
      simpa [stacked, hne g hg] using hregs g hg
    case blocks =>
      rw [fiber_start_eq]
      exact hblk
    case held =>
      rw [fiber_start_eq]
      exact hheld
    case clock => rw [fiber_start_eq]; rfl
    case current => rw [fiber_start_eq]; rfl
    case zombie => rw [fiber_start_eq]; rfl
    case epoll => rw [fiber_start_eq]; rfl
    case new =>
      have h1 : m.park f = .PARK_FD := congrArg FiberStruct.park hread
      have h2 : m.wait_status f = .READY := congrArg FiberStruct.wait_status hread
      have h3 : m.wake_pending f = false := congrArg FiberStruct.wake_pending hread
      rw [fiber_start_eq, hst]
      simp [view, stacked, FiberView.spawned, h1, h2, h3, hgen]
    case stack => rw [hst]; exact hbase
    case stack_pool => rw [fiber_start_eq, hst]; rfl
    case reg =>
      rw [fiber_start_eq]
      exact Function.update_self _ _ _
    case repooled => rw [fiber_start_eq]; rfl

/-! ## §3. Recycling. -/

/-- What reaping the completed fiber `f` does. -/
structure Reaps (K : Kernel κ δ) (out : γ → List Region) (good : γ → Prop) (P : StackPool σ)
    (s s' : Reactor T γ σ κ) (f : Nat) (l q : List Nat) : Prop where
  core : Core s' (l.erase f) q
  pool : Pool out good s' (l.erase f)
  view : view s' = Function.update (view s) f
    { view s f with state := .FB_FREE, generation := s.mem.generation f + 1 }
  reg : s'.mem.reg_fd = Function.update s.mem.reg_fd f (-1)
  kernel : Detached K s f s'.epoll
  blocks : ∀ p, IsBlock s.fibers p → IsBlock s'.fibers p
  libc : s'.libc = s.libc
  stack_pool : s'.stack_pool = P.cfiber_growable_stack_release (s.mem.stack f) s.stack_pool
  clock : s'.clock = s.clock
  repooled : s'.repooled = Function.update s.repooled f (s.repooled f + 1)
  current : s'.current = s.current
  zombie : s'.zombie = none

/-- **Reaping.** -/
theorem reap_spec (H : LibcOk T L out good) (P : StackPool σ) (K : Kernel κ δ)
    {s : Reactor T γ σ κ} {l q : List Nat} (h : Core s l q) (hp : Pool out good s l) {f : Nat}
    (hz : s.zombie = some f) : Reaps K out good P s (reap L P K s) f l q := by
  have hst : s.mem.state f = .FB_ZOMBIE := (h.roster.dead f).mpr hz
  have hlive : f ∈ l := h.mem_live (by simp [hst])
  have hw : s.mem.wait_fd f = -1 := by
    by_contra hne
    rcases (h.waits.idle f hlive hne).2 with hs | hs <;> simp [hst] at hs
  have hlet := detach_idle K h hlive fun hs => by simp [hst] at hs
  obtain ⟨ow, k, e, hdet, hown, hk⟩ := detach_fd_spec K h.owners hlive
  -- the pool's view of the state just before the block goes back
  have hp₁ : Pool out good
      { live_unlink (detach_fd K s f) f with
        stack_pool := P.cfiber_growable_stack_release
          ((live_unlink (detach_fd K s f) f).mem.stack f)
          (live_unlink (detach_fd K s f) f).stack_pool } l := by
    rw [hdet, live_unlink_eq]
    exact ⟨hp.rep, hp.own, hp.sound, hp.live, hp.reserve, hp.generation, hp.fresh⟩
  obtain ⟨ms, hrep, hblk, hpool⟩ := fiber_repool_spec H hp₁ h.roster.nodup hlive
  have heq : reap L P K s =
      { s with
        mem := { s.mem with
          reg_fd := Function.update s.mem.reg_fd f (-1)
          live_next := unlinkNext s.mem.live_next s.mem.live_prev f
          live_prev := unlinkPrev s.mem.live_next s.mem.live_prev f
          generation := Function.update s.mem.generation f (s.mem.generation f + 1)
          state := Function.update s.mem.state f .FB_FREE }
        live_head := unlinkHead s.mem.live_next s.mem.live_prev s.live_head f
        fd_owner := ow
        epoll := k
        errno := e
        stack_pool := P.cfiber_growable_stack_release (s.mem.stack f) s.stack_pool
        repooled := Function.update s.repooled f (s.repooled f + 1)
        fibers := ms
        zombie := none } := by
    unfold reap fiber_recycle
    rw [hz]
    dsimp only
    rw [hrep, hdet, live_unlink_eq]
  have hr := h.roster
  rw [hz] at hr
  have hreg : Function.update s.mem.reg_fd f (-1) f = -1 := Function.update_self _ _ _
  rw [heq]
  refine ⟨⟨hr.recycle, h.links.unlink hlive, ?_, hown.erase hreg, ?_⟩, ?_, ?_, rfl, hk, ?_, rfl,
    rfl,
    rfl, rfl, rfl, rfl⟩
  · have ht := h.timed.update (h.no_timer hlive (by simp [hst])) .FB_FREE
    exact ⟨ht.index, ht.parked, fun g hg => ht.slotted g (List.mem_of_mem_erase hg), ht.room,
      ht.order⟩
  · have hmove := h.waits.move (v := .FB_FREE) (by simp) hw (fun _ _ => rfl) fun _ _ => rfl
    refine ⟨?_, hmove.cont, fun g hg => hmove.idle g (List.mem_of_mem_erase hg)⟩
    intro g hg hpk
    have hgf : g ≠ f := by
      rintro rfl
      simp at hg
    show 0 ≤ s.mem.wait_fd g ∧ Function.update s.mem.reg_fd f (-1) g = s.mem.wait_fd g
    rw [Function.update_of_ne hgf]
    exact hmove.holds g hg hpk
  · rw [hrep, hdet, live_unlink_eq] at hpool
    exact ⟨hpool.rep, hpool.own, hpool.sound, hpool.live, hpool.reserve, hpool.generation,
      hpool.fresh⟩
  · funext g
    by_cases hgf : g = f
    · subst hgf
      simp [view]
    · simp [view, hgf]
  · intro p hb
    apply hblk
    rw [hdet, live_unlink_eq]
    exact hb

/-- Without a completed fiber there is nothing to reap. -/
theorem reap_none (P : StackPool σ) (K : Kernel κ δ) {s : Reactor T γ σ κ} (hz : s.zombie = none) :
    reap L P K s = s := by
  unfold reap
  rw [hz]

/-! ## §4. A fresh reactor. -/

/-- **A fresh reactor** has no fibers, and its pool has no blocks. -/
theorem create_core {sizeof_fiber : Nat} {m : FiberMem} {c : γ} {sp : σ} {k : κ} {now : UInt64}
    {s : Reactor T γ σ κ} (hc : cfiber_reactor_create T sizeof_fiber m c sp k now = some s)
    (hm : ∀ p, m.state p = .FB_FREE) (hg : good c) (ho : out c = []) :
    Core s [] [] ∧ Pool out good s [] := by
  unfold cfiber_reactor_create at hc
  cases hinit : cfiber_multislab_init_ext T (align_up sizeof_fiber T.CACHE_LINE_SIZE)
      DEFAULT_FIBERS_PER_SLAB 0 UINT32_MAX with
  | none => simp [hinit] at hc
  | some ms =>
      obtain ⟨hrep, hdom, -, -, -, hres⟩ := cfiber_multislab_init_ext_spec hinit
      have hregs : regions ms = [] := by simp [regions, hdom]
      rw [hinit] at hc
      obtain rfl := Option.some.inj hc
      refine ⟨⟨⟨Fifo.empty _, ?ready, List.nodup_nil, ?live, ?running, ?dead, rfl, rfl⟩,
        DList.empty _ _,
        ⟨?index, ?parked, ?slotted, Nat.le_refl _, fun _ _ h => absurd h (Nat.not_lt_zero _)⟩,
        Owners.empty _ _, ⟨?holds, ?cont, ?idle⟩⟩,
        ⟨⟨[], [], hrep⟩, ⟨?perm, ?apart, ?fits⟩, hg, ?live_blocks, hres, ?generation, ?fresh⟩⟩
      case ready => intro f; simp [hm]
      case live => intro f; simp [hm]
      case running => intro f; simp [hm]
      case dead => intro f; simp [hm]
      case index => intro i hi; simp at hi
      case parked => rintro f ⟨i, hi, -⟩; simp at hi
      case slotted => intro f hf; simp at hf
      case holds => intro f hf; simp [hm] at hf
      case cont => intro f hf; simp [hm] at hf
      case idle => intro f hf; simp at hf
      case perm => rw [ho, hregs]
      case apart => rw [hregs]; exact List.Pairwise.nil
      case fits => rw [hregs]; simp
      case live_blocks =>
        intro p
        simp only [List.not_mem_nil, iff_false]
        rintro ⟨n, hn, -⟩
        rw [hdom] at hn
        exact absurd hn (by simp)
      case generation =>
        rintro p ⟨n, hn, -⟩
        rw [hdom] at hn
        exact absurd hn (by simp)
      case fresh => exact fun _ _ => rfl

end CFiber.Ev
