/-
  CFiber.Ev.Core — the reactor's invariant and what each wake-up does.

  `Core s l q` collects the agreement of the reactor's parts: the roster (queue `q`, live list `l`,
  counters), the links of the live list, the timer heap, the descriptor map and what parked fibers
  wait for.  `view s f` is what the rest of the development looks at in a fiber; every operation of
  the reactor changes the view of one fiber, and its spec lemma says which and how:

    • `unpark_spec`, `fire_timer_spec`, `ready_event_spec` — a parked fiber becomes READY;
    • `apply_cmd_spec`, `release_holder_spec`              — a command; a close.
-/
import CFiber.Ev.Park
import CFiber.Ev.Roster

namespace CFiber.Ev

open CFiber.Base CFiber.Memory

variable {T : Target} {γ σ κ δ : Type}

/-! ## §1. What is seen of a fiber. -/

/-- The part of a fiber struct that waits and wake-ups are about. -/
@[ext]
structure FiberView where
  state : FiberState
  park : ParkKind
  ctx : Ctx
  wait_fd : Int
  wait_status : EvStatus
  wake_pending : Bool
  generation : UInt64
  enqueued : Nat
  /-- `none` outside the timer heap. -/
  deadline : Option UInt64
  stack : Stack
  deriving DecidableEq, Repr

def view (s : Reactor T γ σ κ) (f : Nat) : FiberView where
  state := s.mem.state f
  park := s.mem.park f
  ctx := s.mem.ctx f
  wait_fd := s.mem.wait_fd f
  wait_status := s.mem.wait_status f
  wake_pending := s.mem.wake_pending f
  generation := s.mem.generation f
  enqueued := s.enqueued f
  deadline := (s.mem.timer_i f).map fun _ => s.mem.deadline_ns f
  stack := s.mem.stack f

/-- The view after a wake-up with the given status. -/
def FiberView.woken (v : FiberView) (status : EvStatus) : FiberView :=
  { v with
    state := .FB_READY
    wait_status := status
    enqueued := v.enqueued + 1
    deadline := none }

/-! ## §2. The invariant. -/

/-- The heap holds parked fibers in the order of their deadlines, each at the slot it records; a live
fiber with a slot is there. -/
structure Timed (heap : Nat → Nat) (len cap : Nat) (timer_i : Nat → Option Nat)
    (deadline_ns : Nat → UInt64) (state : Nat → FiberState) (l : List Nat) : Prop where
  index : Indexed heap len timer_i
  parked : ∀ f, Slotted heap len f → state f = .FB_PARKED
  slotted : ∀ f ∈ l, ∀ i, timer_i f = some i → Slotted heap len f
  room : len ≤ cap
  order : Heaped (deadlines deadline_ns heap) len

/-- Where a parked fiber continues. -/
def ParkKind.ctx : ParkKind → Ctx
  | .PARK_FD => .wait
  | .PARK_TIMER => .sleep
  | .PARK_ASYNC => .async

/-- What fibers wait for: a fiber parked on a descriptor holds it, and `wait_fd` is set only while
a `cfiber_ev_wait` is under way. -/
structure Waits (state : Nat → FiberState) (park : Nat → ParkKind) (ctx : Nat → Ctx)
    (wait_fd reg_fd : Nat → Int) (l : List Nat) : Prop where
  holds : ∀ f, state f = .FB_PARKED → park f = .PARK_FD → 0 ≤ wait_fd f ∧ reg_fd f = wait_fd f
  cont : ∀ f, state f = .FB_PARKED → ctx f = (park f).ctx
  idle : ∀ f ∈ l, wait_fd f ≠ -1 → ctx f = .wait ∧ (state f = .FB_PARKED ∨ state f = .FB_READY)

structure Core (s : Reactor T γ σ κ) (l q : List Nat) : Prop where
  roster : Roster s.mem.next s.ready_head s.ready_tail s.mem.state s.current s.zombie s.active
    s.blocked l q
  links : DList s.mem.live_next s.mem.live_prev s.live_head l
  timed : Timed s.heap s.heap_len s.heap_cap s.mem.timer_i s.mem.deadline_ns s.mem.state l
  owners : OwnersOk s l
  waits : Waits s.mem.state s.mem.park s.mem.ctx s.mem.wait_fd s.mem.reg_fd l

theorem Core.mem_live {s : Reactor T γ σ κ} {l q : List Nat} (h : Core s l q) {f : Nat}
    (hf : s.mem.state f ≠ .FB_FREE) : f ∈ l :=
  (h.roster.live f).mpr hf

/-- Only a parked fiber has a deadline. -/
theorem Core.no_timer {s : Reactor T γ σ κ} {l q : List Nat} (h : Core s l q) {f : Nat}
    (hf : f ∈ l) (hst : s.mem.state f ≠ .FB_PARKED) : s.mem.timer_i f = none := by
  cases hi : s.mem.timer_i f with
  | none => rfl
  | some i => exact absurd (h.timed.parked f (h.timed.slotted f hf i hi)) hst

theorem Core.not_in_heap {s : Reactor T γ σ κ} {l q : List Nat} (h : Core s l q) {f : Nat}
    (hst : s.mem.state f ≠ .FB_PARKED) : ¬ InHeap s f :=
  fun hm => hst (h.timed.parked f hm)

/-- **A fiber parked on a descriptor is its recorded holder.** -/
theorem Core.holder {s : Reactor T γ σ κ} {l q : List Nat} (h : Core s l q) {f : Nat} {fd : Int}
    (hf : ParkedOn s f fd) (hfd : fd ≠ -1) : fd_owner_get s fd = some f := by
  obtain ⟨hst, hwait⟩ := hf
  have hlive : f ∈ l := h.mem_live (by simp [hst])
  obtain ⟨hctx, -⟩ := h.waits.idle f hlive (by rw [hwait]; exact hfd)
  have hpark : s.mem.park f = .PARK_FD := by
    have := h.waits.cont f hst
    rw [hctx] at this
    cases hp : s.mem.park f <;> simp [hp, ParkKind.ctx] at this ⊢
  obtain ⟨hpos, hreg⟩ := h.waits.holds f hst hpark
  have := h.owners.get_reg hlive (by omega)
  rwa [hreg, hwait] at this

/-- What the operations on a running reactor leave alone: the pool, and the libc heap but for
array growth. -/
structure Kept (L : Libc γ) (s s' : Reactor T γ σ κ) : Prop where
  fibers : s'.fibers = s.fibers
  libc : Reallocs L s.libc s'.libc
  repooled : s'.repooled = s.repooled
  stack_pool : s'.stack_pool = s.stack_pool
  clock : s'.clock = s.clock

/-! ## §3. Timers and waits, apart from the rest. -/

/-- Removing a deadline, if there is one. -/
theorem Timed.remove {s : Reactor T γ σ κ} {l : List Nat}
    (h : Timed s.heap s.heap_len s.heap_cap s.mem.timer_i s.mem.deadline_ns s.mem.state l) {f : Nat}
    (hf : f ∈ l) :
    ∃ heap len timer_i,
      timer_remove s f =
        { s with heap_len := len, heap := heap, mem := { s.mem with timer_i := timer_i } } ∧
      Timed heap len s.heap_cap timer_i s.mem.deadline_ns s.mem.state l ∧ timer_i f = none ∧
      (∀ g, g ≠ f → (timer_i g).isSome = (s.mem.timer_i g).isSome) ∧
      (∀ g, Slotted heap len g ↔ InHeap s g ∧ g ≠ f) ∧ (InHeap s f → len < s.heap_len) := by
  have hcase : s.mem.timer_i f = none ∨ InHeap s f := by
    cases hi : s.mem.timer_i f with
    | none => exact Or.inl rfl
    | some i => exact Or.inr (h.slotted f hf i hi)
  rcases timer_remove_spec h.index h.order hcase with
    ⟨hnone, heq⟩ | ⟨heap, len, timer_i, heq, hix, hord, hnone, hlen, hmem, hout⟩
  · have hout := h.index.not_slotted hnone
    refine ⟨s.heap, s.heap_len, s.mem.timer_i, heq, h, hnone, fun _ _ => rfl, ?_,
      fun hm => absurd hm hout⟩
    exact fun g => ⟨fun hm => ⟨hm, fun e => hout (e ▸ hm)⟩, fun hm => hm.1⟩
  · refine ⟨heap, len, timer_i, heq, ⟨hix, ?_, ?_, ?_, hord⟩, hnone, ?_, hmem, fun _ => hlen⟩
    · intro g hg
      exact h.parked g ((hmem g).mp hg).1
    · intro g hg i hi
      by_cases hin : InHeap s g
      · apply (hmem g).mpr
        refine ⟨hin, ?_⟩
        rintro rfl
        rw [hnone] at hi
        exact absurd hi (by simp)
      · rw [hout g hin] at hi
        exact absurd (h.slotted g hg i hi) hin
    · have := h.room
      omega
    · intro g hgf
      by_cases hin : InHeap s g
      · -- a member of both heaps
        obtain ⟨i, -, hi, -⟩ := hix.slot ((hmem g).mpr ⟨hin, hgf⟩)
        obtain ⟨j, -, hj, -⟩ := h.index.slot hin
        rw [hi, hj]
        rfl
      · rw [hout g hin]

/-- A fiber without a deadline may change state. -/
theorem Timed.update {heap : Nat → Nat} {len cap : Nat} {timer_i : Nat → Option Nat}
    {deadline_ns : Nat → UInt64} {state : Nat → FiberState} {l : List Nat}
    (h : Timed heap len cap timer_i deadline_ns state l) {f : Nat}
    (hf : timer_i f = none) (v : FiberState) :
    Timed heap len cap timer_i deadline_ns (Function.update state f v) l := by
  refine { h with parked := ?_ }
  intro g hg
  have hgf : g ≠ f := by
    rintro rfl
    exact h.index.not_slotted hf hg
  rw [Function.update_of_ne hgf]
  exact h.parked g hg

/-- A fiber that wakes up: the others' waits are as before. -/
theorem Waits.wake {state : Nat → FiberState} {park : Nat → ParkKind} {ctx : Nat → Ctx}
    {wait_fd reg_fd reg_fd' : Nat → Int} {l : List Nat} (h : Waits state park ctx wait_fd reg_fd l)
    {f : Nat} (hreg : ∀ g, g ≠ f → reg_fd' g = reg_fd g) :
    Waits (Function.update state f .FB_READY) park ctx wait_fd reg_fd' l := by
  refine ⟨?_, ?_, ?_⟩
  · intro g hg hp
    by_cases hgf : g = f
    · subst hgf; simp at hg
    · rw [Function.update_of_ne hgf] at hg
      rw [hreg g hgf]
      exact h.holds g hg hp
  · intro g hg
    by_cases hgf : g = f
    · subst hgf; simp at hg
    · rw [Function.update_of_ne hgf] at hg
      exact h.cont g hg
  · intro g hg hw
    obtain ⟨hc, hs⟩ := h.idle g hg hw
    refine ⟨hc, ?_⟩
    by_cases hgf : g = f
    · subst hgf; simp
    · rw [Function.update_of_ne hgf]
      exact hs

/-! ## §4. Waking a parked fiber. -/

/-- The reactor after the parked fiber `f` was resumed; what its detachment changed is given. -/
def woken (s : Reactor T γ σ κ) (f : Nat) (status : EvStatus) (reg_fd : Nat → Int)
    (ow : Nat → Option Nat) (k : κ) (e : Errno) (heap : Nat → Nat) (len : Nat)
    (timer_i : Nat → Option Nat) : Reactor T γ σ κ :=
  { s with
    mem := { s.mem with
      reg_fd := reg_fd
      timer_i := timer_i
      wait_status := Function.update s.mem.wait_status f status
      next := snocNext s.mem.next s.ready_tail f
      state := Function.update s.mem.state f .FB_READY }
    fd_owner := ow
    epoll := k
    errno := e
    heap := heap
    heap_len := len
    blocked := s.blocked - 1
    ready_head := snocHead s.ready_head s.ready_tail f
    ready_tail := some f
    enqueued := Function.update s.enqueued f (s.enqueued f + 1) }

theorem resume_eq {s : Reactor T γ σ κ} {f : Nat} (hf : s.mem.state f = .FB_PARKED)
    (status : EvStatus) :
    resume s f status =
      woken s f status s.mem.reg_fd s.fd_owner s.epoll s.errno s.heap s.heap_len s.mem.timer_i := by
  unfold resume
  rw [if_neg (by simp [hf])]
  dsimp only
  rw [enqueue_eq]
  rfl

theorem woken_core {s : Reactor T γ σ κ} {l q : List Nat} (h : Core s l q) {f : Nat}
    (hf : s.mem.state f = .FB_PARKED) (status : EvStatus) {reg_fd : Nat → Int}
    {ow : Nat → Option Nat} {heap : Nat → Nat} {len : Nat} {timer_i : Nat → Option Nat} (k : κ)
    (e : Errno) (hown : Owners ow s.fd_owner_cap reg_fd l)
    (hreg : ∀ g, g ≠ f → reg_fd g = s.mem.reg_fd g)
    (htim : Timed heap len s.heap_cap timer_i s.mem.deadline_ns s.mem.state l)
    (hnone : timer_i f = none) :
    Core (woken s f status reg_fd ow k e heap len timer_i) l (q ++ [f]) where
  roster := h.roster.resume hf
  links := h.links
  timed := htim.update hnone .FB_READY
  owners := hown
  waits := h.waits.wake hreg

/-- Only whether a fiber has a slot is seen. -/
theorem map_slot {a b : Option Nat} (h : a.isSome = b.isSome) (d : UInt64) :
    a.map (fun _ => d) = b.map fun _ => d := by
  cases a <;> cases b <;> simp_all

theorem woken_view (s : Reactor T γ σ κ) (f : Nat) (status : EvStatus) (reg_fd : Nat → Int)
    (ow : Nat → Option Nat) (k : κ) (e : Errno) (heap : Nat → Nat) (len : Nat)
    {timer_i : Nat → Option Nat} (hnone : timer_i f = none)
    (hrest : ∀ g, g ≠ f → (timer_i g).isSome = (s.mem.timer_i g).isSome) :
    view (woken s f status reg_fd ow k e heap len timer_i)
      = Function.update (view s) f ((view s f).woken status) := by
  funext g
  by_cases hgf : g = f
  · subst hgf
    simp [view, woken, FiberView.woken, hnone]
  · simp [view, woken, hgf, map_slot (hrest g hgf)]

/-- What a wake-up of `f` does: `f` goes to the back of the queue with the given status. -/
structure Woke (s s' : Reactor T γ σ κ) (f : Nat) (status : EvStatus) (l q : List Nat) : Prop where
  core : Core s' l (q ++ [f])
  view : view s' = Function.update (view s) f ((view s f).woken status)
  others : ∀ g, g ≠ f → s'.mem.reg_fd g = s.mem.reg_fd g
  fibers : s'.fibers = s.fibers
  libc : s'.libc = s.libc
  repooled : s'.repooled = s.repooled
  stack_pool : s'.stack_pool = s.stack_pool
  clock : s'.clock = s.clock
  current : s'.current = s.current
  zombie : s'.zombie = s.zombie

theorem Woke.kept {s s' : Reactor T γ σ κ} {f : Nat} {status : EvStatus} {l q : List Nat}
    (h : Woke s s' f status l q) (L : Libc γ) : Kept L s s' :=
  ⟨h.fibers, by rw [h.libc]; exact .refl, h.repooled, h.stack_pool, h.clock⟩

/-- The kernel's side of `detach_fd`: the descriptor the fiber held, if any, is deleted. -/
def Detached (K : Kernel κ δ) (s : Reactor T γ σ κ) (f : Nat) (k : κ) : Prop :=
  (s.mem.reg_fd f = -1 → k = s.epoll) ∧
    (s.mem.reg_fd f ≠ -1 →
      k = (K.epoll_ctl .EPOLL_CTL_DEL (s.mem.reg_fd f) 0 none s.epoll).2)

/-- **Unpark.**  The fiber leaves both wait sources and becomes READY. -/
theorem unpark_spec (K : Kernel κ δ) {s : Reactor T γ σ κ} {l q : List Nat} (h : Core s l q)
    {f : Nat} (hf : s.mem.state f = .FB_PARKED) (status : EvStatus) :
    Woke s (unpark K s f status) f status l q ∧ (unpark K s f status).mem.reg_fd f = -1 ∧
      Detached K s f (unpark K s f status).epoll := by
  have hlive : f ∈ l := h.mem_live (by simp [hf])
  obtain ⟨ow, k, e, hdet, hown, hk0, hk1⟩ := detach_fd_spec K h.owners hlive
  obtain ⟨heap, len, timer_i, hrem, htim, hnone, hrest, -⟩ := Timed.remove
    (s := { s with
      mem := { s.mem with reg_fd := Function.update s.mem.reg_fd f (-1) }
      fd_owner := ow
      epoll := k
      errno := e })
    h.timed hlive
  have heq : unpark K s f status
      = woken s f status (Function.update s.mem.reg_fd f (-1)) ow k e heap len timer_i := by
    unfold unpark
    dsimp only
    rw [hdet, hrem]
    apply resume_eq
    exact hf
  have hothers : ∀ g, g ≠ f → Function.update s.mem.reg_fd f (-1) g = s.mem.reg_fd g :=
    fun g hg => Function.update_of_ne hg _ _
  rw [heq]
  exact ⟨⟨woken_core h hf status k e hown hothers htim hnone, woken_view _ _ _ _ _ _ _ _ _ hnone hrest,
    hothers, rfl, rfl, rfl, rfl, rfl, rfl, rfl⟩, Function.update_self _ _ _, hk0, hk1⟩

/-- What the heap is without `f`. -/
structure Popped (s s' : Reactor T γ σ κ) (f : Nat) : Prop where
  len : s'.heap_len < s.heap_len
  members : ∀ g, InHeap s' g ↔ InHeap s g ∧ g ≠ f
  deadline_ns : s'.mem.deadline_ns = s.mem.deadline_ns

/-- **A deadline fires**: the fiber at the root of the heap wakes up with `TIMEOUT`. -/
theorem fire_timer_spec (K : Kernel κ δ) {s : Reactor T γ σ κ} {l q : List Nat} (h : Core s l q)
    (hlen : s.heap_len > 0) :
    s.mem.state (s.heap 0) = .FB_PARKED ∧
      Woke s (fire_timer K s) (s.heap 0) .TIMEOUT l q ∧
      (fire_timer K s).mem.reg_fd (s.heap 0) = -1 ∧
      Detached K s (s.heap 0) (fire_timer K s).epoll ∧ Popped s (fire_timer K s) (s.heap 0) := by
  have hroot : Slotted s.heap s.heap_len (s.heap 0) := ⟨0, hlen, rfl⟩
  have hf := h.timed.parked _ hroot
  have hlive : s.heap 0 ∈ l := h.mem_live (by simp [hf])
  obtain ⟨heap, len, timer_i, hrem, htim, hnone, hrest, hmem, hlt⟩ := Timed.remove h.timed hlive
  obtain ⟨ow, k, e, hdet, hown, hk0, hk1⟩ := detach_fd_spec K
    (s := { s with heap_len := len, heap := heap, mem := { s.mem with timer_i := timer_i } })
    h.owners hlive
  have heq : fire_timer K s = woken s (s.heap 0) .TIMEOUT
      (Function.update s.mem.reg_fd (s.heap 0) (-1)) ow k e heap len timer_i := by
    unfold fire_timer
    dsimp only
    rw [hrem, hdet]
    apply resume_eq
    exact hf
  have hothers : ∀ g, g ≠ s.heap 0 →
      Function.update s.mem.reg_fd (s.heap 0) (-1) g = s.mem.reg_fd g :=
    fun g hg => Function.update_of_ne hg _ _
  rw [heq]
  exact ⟨hf, ⟨woken_core h hf .TIMEOUT k e hown hothers htim hnone, woken_view _ _ _ _ _ _ _ _ _ hnone hrest,
    hothers, rfl, rfl, rfl, rfl, rfl, rfl, rfl⟩, Function.update_self _ _ _, ⟨hk0, hk1⟩,
    hlt hroot, hmem, rfl⟩

/-- **A readiness event** wakes the fiber it points at if that fiber is parked, and does nothing
otherwise.  The registration stays. -/
theorem ready_event_spec {s : Reactor T γ σ κ} {l q : List Nat} (h : Core s l q) (w : Nat) :
    (s.mem.state w ≠ .FB_PARKED ∧ ready_event s w = s) ∨
    (s.mem.state w = .FB_PARKED ∧ Woke s (ready_event s w) w .READY l q ∧
      (ready_event s w).mem.reg_fd = s.mem.reg_fd ∧ (ready_event s w).epoll = s.epoll) := by
  by_cases hw : s.mem.state w = .FB_PARKED
  · right
    have hlive : w ∈ l := h.mem_live (by simp [hw])
    obtain ⟨heap, len, timer_i, hrem, htim, hnone, hrest, -⟩ := Timed.remove h.timed hlive
    have heq : ready_event s w
        = woken s w .READY s.mem.reg_fd s.fd_owner s.epoll s.errno heap len timer_i := by
      unfold ready_event
      rw [if_neg (by simp [hw])]
      dsimp only
      rw [hrem]
      apply resume_eq
      exact hw
    rw [heq]
    exact ⟨hw, ⟨woken_core h hw .READY s.epoll s.errno h.owners (fun g _ => rfl) htim hnone,
      woken_view _ _ _ _ _ _ _ _ _ hnone hrest, fun g _ => rfl, rfl, rfl, rfl, rfl, rfl, rfl, rfl⟩,
      rfl, rfl⟩
  · left
    exact ⟨hw, by unfold ready_event; rw [if_pos hw]⟩

/-! ## §5. Commands and closes. -/

/-- The reactor after a wake found its target elsewhere: the permit is set. -/
def permitted (s : Reactor T γ σ κ) (f : Nat) : Reactor T γ σ κ :=
  { s with mem := { s.mem with wake_pending := Function.update s.mem.wake_pending f true } }

theorem permitted_view (s : Reactor T γ σ κ) (f : Nat) :
    view (permitted s f) = Function.update (view s) f { view s f with wake_pending := true } := by
  funext g
  by_cases hgf : g = f
  · subst hgf
    simp [view, permitted]
  · simp [view, permitted, hgf]

theorem permitted_core {s : Reactor T γ σ κ} {l q : List Nat} (h : Core s l q) (f : Nat) :
    Core (permitted s f) l q :=
  ⟨h.roster, h.links, h.timed, h.owners, h.waits⟩

theorem not_stale {s : Reactor T γ σ κ} {f : Nat} {gen : UInt64} (h : stale s f gen = false) :
    s.mem.generation f = gen ∧ s.mem.state f ≠ .FB_FREE ∧ s.mem.state f ≠ .FB_ZOMBIE := by
  simp only [stale, Bool.or_eq_false_iff, bne_eq_false_iff_eq, beq_eq_false_iff_ne] at h
  exact ⟨h.1.1, h.1.2, h.2⟩

theorem addressee_some {s : Reactor T γ σ κ} {c : Cmd} {f : Nat} :
    addressee s c = some f ↔ c.target = some f ∧ stale s f c.gen = false := by
  unfold addressee
  rw [Option.filter_eq_some_iff]
  simp

/-- **A command.**  A stale handle changes nothing; a cancel wakes a parked fiber with `CANCELLED`
and changes nothing elsewhere; a wake ends an async park with `READY` and is kept as a permit
otherwise. -/
theorem apply_cmd_spec (K : Kernel κ δ) (s : Reactor T γ σ κ) (c : Cmd) :
    (addressee s c = none ∧ apply_cmd K s c = s) ∨
    ∃ f, addressee s c = some f ∧
      ((c.kind = .CMD_CANCEL ∧ s.mem.state f = .FB_PARKED ∧
          apply_cmd K s c = unpark K s f .CANCELLED) ∨
       (c.kind = .CMD_CANCEL ∧ s.mem.state f ≠ .FB_PARKED ∧ apply_cmd K s c = s) ∨
       (c.kind = .CMD_WAKE ∧ s.mem.state f = .FB_PARKED ∧ s.mem.park f = .PARK_ASYNC ∧
          apply_cmd K s c = unpark K s f .READY) ∨
       (c.kind = .CMD_WAKE ∧ ¬ (s.mem.state f = .FB_PARKED ∧ s.mem.park f = .PARK_ASYNC) ∧
          apply_cmd K s c = permitted s f)) := by
  unfold apply_cmd addressee
  cases htarget : c.target with
  | none => exact Or.inl ⟨rfl, rfl⟩
  | some f =>
      cases hstale : stale s f c.gen with
      | true => exact Or.inl ⟨by simp [hstale], by simp [hstale]⟩
      | false =>
          right
          refine ⟨f, by simp [hstale], ?_⟩
          cases hkind : c.kind with
          | CMD_CANCEL =>
              by_cases hp : s.mem.state f = .FB_PARKED
              · exact Or.inl ⟨rfl, hp, by simp [hstale, hp]⟩
              · exact Or.inr (Or.inl ⟨rfl, hp, by simp [hstale, hp]⟩)
          | CMD_WAKE =>
              by_cases hp : s.mem.state f = .FB_PARKED ∧ s.mem.park f = .PARK_ASYNC
              · exact Or.inr (Or.inr (Or.inl ⟨rfl, hp.1, hp.2, by simp [hstale, hp]⟩))
              · refine Or.inr (Or.inr (Or.inr ⟨rfl, hp, ?_⟩))
                simp only [hstale, if_neg hp]
                rfl

/-- The reactor after an idle holder was detached: only descriptor data changes. -/
structure Let (K : Kernel κ δ) (s s' : Reactor T γ σ κ) (f : Nat) (l q : List Nat) : Prop where
  core : Core s' l q
  view : view s' = view s
  reg : s'.mem.reg_fd = Function.update s.mem.reg_fd f (-1)
  kernel : Detached K s f s'.epoll
  fibers : s'.fibers = s.fibers
  libc : s'.libc = s.libc
  repooled : s'.repooled = s.repooled
  stack_pool : s'.stack_pool = s.stack_pool
  clock : s'.clock = s.clock
  current : s'.current = s.current
  zombie : s'.zombie = s.zombie

theorem Let.kept {K : Kernel κ δ} {s s' : Reactor T γ σ κ} {f : Nat} {l q : List Nat}
    (h : Let K s s' f l q) (L : Libc γ) : Kept L s s' :=
  ⟨h.fibers, by rw [h.libc]; exact .refl, h.repooled, h.stack_pool, h.clock⟩

/-- **Detaching a fiber that is not parked on a descriptor.** -/
theorem detach_idle (K : Kernel κ δ) {s : Reactor T γ σ κ} {l q : List Nat} (h : Core s l q)
    {f : Nat} (hlive : f ∈ l)
    (hidle : s.mem.state f = .FB_PARKED → s.mem.park f ≠ .PARK_FD) :
    Let K s (detach_fd K s f) f l q := by
  obtain ⟨ow, k, e, hdet, hown, hk0, hk1⟩ := detach_fd_spec K h.owners hlive
  rw [hdet]
  refine ⟨⟨h.roster, h.links, h.timed, hown, ?_, h.waits.cont, h.waits.idle⟩, rfl, rfl, ⟨hk0, hk1⟩,
    rfl, rfl, rfl, rfl, rfl, rfl, rfl⟩
  intro g hg hp
  have hgf : g ≠ f := by
    rintro rfl
    exact hidle hg hp
  show 0 ≤ s.mem.wait_fd g ∧ Function.update s.mem.reg_fd f (-1) g = s.mem.wait_fd g
  rw [Function.update_of_ne hgf]
  exact h.waits.holds g hg hp

/-- **The registration of a descriptor that is being closed.**  Nobody holds it; or its holder is
parked on it and is cancelled; or its holder is idle and is detached. -/
theorem release_holder_spec (K : Kernel κ δ) {s : Reactor T γ σ κ} {l q : List Nat} (h : Core s l q)
    (fd : Int) :
    (fd_owner_get s fd = none ∧ release_holder K s fd = s) ∨
    (∃ f, fd_owner_get s fd = some f ∧ ParkedOn s f fd ∧
      release_holder K s fd = unpark K s f .CANCELLED) ∨
    ∃ f, fd_owner_get s fd = some f ∧ ¬ ParkedOn s f fd ∧
      release_holder K s fd = detach_fd K s f ∧ Let K s (release_holder K s fd) f l q := by
  unfold release_holder
  cases hget : fd_owner_get s fd with
  | none => exact Or.inl ⟨rfl, rfl⟩
  | some f =>
      by_cases hp : s.mem.state f = .FB_PARKED ∧ s.mem.wait_fd f = fd
      · exact Or.inr (Or.inl ⟨f, rfl, hp, by simp only [if_pos hp]⟩)
      · obtain ⟨hpos, hlive, hreg⟩ := h.owners.get_some hget
        right
        right
        refine ⟨f, rfl, hp, by simp only [if_neg hp], ?_⟩
        simp only [if_neg hp]
        apply detach_idle K h hlive
        intro hst hpark
        -- a fiber parked on a descriptor waits on the one it holds
        have := (h.waits.holds f hst hpark).2
        exact hp ⟨hst, by omega⟩

end CFiber.Ev
