/-
  CFiber.Ev.Calls — what the calls of a running fiber do to the reactor.

  The running fiber either keeps running, with `ERROR` or a consumed permit, or leaves: it parks,
  yields or completes.  One spec lemma a call, each keeping `Core`:

    • `cfiber_ev_wait_spec`, `cfiber_ev_sleep_spec`, `cfiber_ev_wait_async_spec`;
    • `cfiber_ev_yield_spec`, `reactor_return_hook_spec`;
    • `dispatch_spec` — the way back: the head of the queue runs and its call returns.
-/
import CFiber.Ev.Core

namespace CFiber.Ev

open CFiber.Base CFiber.Memory

variable {T : Target} {γ σ κ δ : Type}

/-! ## §1. Adding a deadline to the running fiber; robbing idle holders. -/

/-- **A deadline for a fiber about to park**, or the heap could not grow. -/
theorem Timed.add (L : Libc γ) {s : Reactor T γ σ κ} {l : List Nat}
    (h : Timed s.heap s.heap_len s.heap_cap s.mem.timer_i s.mem.deadline_ns s.mem.state l) {f : Nat}
    (hf : ¬ InHeap s f) (deadline : UInt64) :
    (∃ c, Reallocs L s.libc c ∧ timer_add L s f deadline = (false, { s with libc := c })) ∨
    ∃ c cap heap timer_i, Reallocs L s.libc c ∧
      timer_add L s f deadline = (true,
        { s with
          libc := c
          heap_cap := cap
          heap_len := s.heap_len + 1
          heap := heap
          mem := { s.mem with
            deadline_ns := Function.update s.mem.deadline_ns f deadline
            timer_i := timer_i } }) ∧
      Timed heap (s.heap_len + 1) cap timer_i (Function.update s.mem.deadline_ns f deadline)
        (Function.update s.mem.state f .FB_PARKED) l ∧
      (timer_i f).isSome = true ∧
      ∀ g, g ≠ f → (timer_i g).isSome = (s.mem.timer_i g).isSome := by
  rcases timer_add_spec L deadline h.index h.order hf with
    hfail | ⟨c, cap, heap, timer_i, hc, hcap, heq, hix, hord, hmem, hout⟩
  · exact Or.inl hfail
  · refine Or.inr ⟨c, cap, heap, timer_i, hc, heq, ⟨hix, ?_, ?_, hcap, hord⟩, ?_, ?_⟩
    · intro g hg
      by_cases hgf : g = f
      · subst hgf; simp
      · rw [Function.update_of_ne hgf]
        exact h.parked g (((hmem g).mp hg).resolve_left hgf)
    · intro g hg i hi
      apply (hmem g).mpr
      by_cases hgf : g = f
      · exact Or.inl hgf
      · right
        by_contra hin
        -- a fiber outside the heap keeps its record, which the law says is `none`
        rw [hout g hgf hin] at hi
        exact hin (h.slotted g hg i hi)
    · obtain ⟨i, -, hi, -⟩ := hix.slot ((hmem f).mpr (Or.inl rfl))
      rw [hi]
      rfl
    · intro g hgf
      by_cases hin : InHeap s g
      · obtain ⟨i, -, hi, -⟩ := hix.slot ((hmem g).mpr (Or.inr hin))
        obtain ⟨j, -, hj, -⟩ := h.index.slot hin
        rw [hi, hj]
        rfl
      · rw [hout g hgf hin]

/-- Records may be cleared, but not of a fiber that waits on what it holds. -/
theorem Waits.robbed {s : Reactor T γ σ κ} {l : List Nat} {f : Nat} {reg_fd : Nat → Int}
    (h : Waits s.mem.state s.mem.park s.mem.ctx s.mem.wait_fd s.mem.reg_fd l)
    (hf : s.mem.state f ≠ .FB_PARKED) (hrob : Robs s f reg_fd) :
    Waits s.mem.state s.mem.park s.mem.ctx s.mem.wait_fd reg_fd l := by
  refine { h with holds := ?_ }
  intro g hg hp
  obtain ⟨hpos, hreg⟩ := h.holds g hg hp
  have hgf : g ≠ f := by
    rintro rfl
    exact hf hg
  rcases hrob g hgf with hsame | ⟨-, hnot⟩
  · rw [hsame]
    exact ⟨hpos, hreg⟩
  · exact absurd ⟨hg, hreg.symm⟩ hnot

/-- A fiber outside every wait changes to a state other than PARKED. -/
theorem Waits.move {state : Nat → FiberState} {park : Nat → ParkKind} {ctx ctx' : Nat → Ctx}
    {wait_fd wait_fd' reg_fd : Nat → Int} {l : List Nat} (h : Waits state park ctx wait_fd reg_fd l)
    {f : Nat} {v : FiberState} (hv : v ≠ .FB_PARKED) (hf : wait_fd' f = -1)
    (hw : ∀ g, g ≠ f → wait_fd' g = wait_fd g) (hc : ∀ g, g ≠ f → ctx' g = ctx g) :
    Waits (Function.update state f v) park ctx' wait_fd' reg_fd l := by
  refine ⟨?_, ?_, ?_⟩
  · intro g hg hp
    by_cases hgf : g = f
    · subst hgf
      rw [Function.update_self] at hg
      exact absurd hg hv
    · rw [Function.update_of_ne hgf] at hg
      rw [hw g hgf]
      exact h.holds g hg hp
  · intro g hg
    by_cases hgf : g = f
    · subst hgf
      rw [Function.update_self] at hg
      exact absurd hg hv
    · rw [Function.update_of_ne hgf] at hg
      rw [hc g hgf]
      exact h.cont g hg
  · intro g hg hne
    have hgf : g ≠ f := by
      rintro rfl
      exact hne hf
    rw [hw g hgf] at hne
    rw [hc g hgf, Function.update_of_ne hgf]
    exact h.idle g hg hne

theorem rearmed_core {s : Reactor T γ σ κ} {l q : List Nat} (h : Core s l q) {f : Nat}
    (hf : s.mem.state f ≠ .FB_PARKED) {c : γ} {ow : Nat → Option Nat} {cap : Nat}
    {reg_fd : Nat → Int} (k : κ) (e : Errno) (hown : Owners ow cap reg_fd l)
    (hrob : Robs s f reg_fd) : Core (rearmed s c ow cap reg_fd k e) l q :=
  ⟨h.roster, h.links, h.timed, hown, h.waits.robbed hf hrob⟩

/-! ## §2. Parking. -/

/-- The view of a fiber that parks. -/
def FiberView.parked (v : FiberView) (kind : ParkKind) (fd : Int) (deadline : Option UInt64) :
    FiberView :=
  { v with
    state := .FB_PARKED
    park := kind
    ctx := kind.ctx
    wait_fd := fd
    wait_status := .READY
    deadline := deadline }

/-- The reactor after the running fiber `f` parked. -/
def parked (s : Reactor T γ σ κ) (f : Nat) (kind : ParkKind) (fd : Int) : Reactor T γ σ κ :=
  { s with
    mem := { s.mem with
      wait_fd := Function.update s.mem.wait_fd f fd
      park := Function.update s.mem.park f kind
      state := Function.update s.mem.state f .FB_PARKED
      wait_status := Function.update s.mem.wait_status f .READY
      ctx := Function.update s.mem.ctx f kind.ctx }
    blocked := s.blocked + 1
    current := none }

/-- Outside a `cfiber_ev_wait` the fiber's `wait_fd` is `-1` already. -/
theorem park_current_eq {s : Reactor T γ σ κ} {f : Nat} (hw : s.mem.wait_fd f = -1)
    (kind : ParkKind) : park_current s f kind kind.ctx = parked s f kind (-1) := by
  have hsame : Function.update s.mem.wait_fd f (-1) = s.mem.wait_fd := by
    rw [← hw]
    exact Function.update_eq_self f _
  unfold parked
  rw [hsame]
  rfl

/-- The view after parking, from the view before the fiber got its deadline. -/
theorem parked_view {s s' : Reactor T γ σ κ} {f : Nat} {deadline : Option UInt64}
    (hv : view s' = Function.update (view s) f { view s f with deadline := deadline })
    (kind : ParkKind) (fd : Int) :
    view (parked s' f kind fd) = Function.update (view s) f ((view s f).parked kind fd deadline) := by
  funext g
  have hg := congrFun hv g
  by_cases hgf : g = f
  · subst hgf
    rw [Function.update_self] at hg ⊢
    unfold FiberView.parked
    rw [FiberView.ext_iff] at hg ⊢
    simp_all [view, parked]
  · rw [Function.update_of_ne hgf] at hg ⊢
    rw [← hg]
    simp [view, parked, hgf]

/-- The view of a fiber that got a deadline. -/
theorem timed_view {s s' : Reactor T γ σ κ} {f : Nat} {deadline : UInt64}
    {timer_i : Nat → Option Nat} (hf : (timer_i f).isSome = true)
    (hrest : ∀ g, g ≠ f → (timer_i g).isSome = (s.mem.timer_i g).isSome)
    (hm : s'.mem = { s.mem with
      reg_fd := s'.mem.reg_fd
      deadline_ns := Function.update s.mem.deadline_ns f deadline
      timer_i := timer_i }) (he : s'.enqueued = s.enqueued) :
    view s' = Function.update (view s) f { view s f with deadline := some deadline } := by
  funext g
  unfold view
  rw [hm, he]
  by_cases hgf : g = f
  · subst hgf
    cases hi : timer_i g with
    | none => simp [hi] at hf
    | some i => simp [hi]
  · simp [hgf, map_slot (hrest g hgf)]

/-- A fiber without a slot has no deadline to begin with. -/
theorem untimed_view {s : Reactor T γ σ κ} {f : Nat} (hf : s.mem.timer_i f = none) :
    view s = Function.update (view s) f { view s f with deadline := none } := by
  funext g
  by_cases hgf : g = f
  · subst hgf
    simp [view, hf]
  · rw [Function.update_of_ne hgf]

/-- The deadline of a call with the given timeout. -/
def deadline_of (s : Reactor T γ σ κ) (timeout_ns : Int64) : Option UInt64 :=
  if timeout_ns ≥ 0 then some (deadline_after s timeout_ns.toUInt64) else none

/-- What a call that parks the running fiber does. -/
structure Parks (L : Libc γ) (s s' : Reactor T γ σ κ) (f : Nat) (kind : ParkKind) (fd : Int)
    (deadline : Option UInt64) (l q : List Nat) : Prop where
  core : Core s' l q
  view : view s' = Function.update (view s) f ((view s f).parked kind fd deadline)
  regs : ∀ g, g ≠ f → s'.mem.reg_fd g = s.mem.reg_fd g ∨ s'.mem.reg_fd g = -1
  kept : Kept L s s'
  current : s'.current = none
  zombie : s'.zombie = s.zombie

/-- What a call that returns `ERROR` does. -/
structure Fails (L : Libc γ) (s s' : Reactor T γ σ κ) (f : Nat) (l q : List Nat) : Prop where
  core : Core s' l q
  view : view s' = view s
  regs : ∀ g, g ≠ f → s'.mem.reg_fd g = s.mem.reg_fd g ∨ s'.mem.reg_fd g = -1
  kept : Kept L s s'
  current : s'.current = s.current
  zombie : s'.zombie = s.zombie

/-- The parked state keeps the invariant: the deadline, the registration and the wait agree. -/
theorem parked_core {s : Reactor T γ σ κ} {l q : List Nat} {f : Nat}
    (hr : Roster s.mem.next s.ready_head s.ready_tail s.mem.state (some f) s.zombie s.active
      s.blocked l q)
    (hl : DList s.mem.live_next s.mem.live_prev s.live_head l)
    (ht : Timed s.heap s.heap_len s.heap_cap s.mem.timer_i s.mem.deadline_ns
      (Function.update s.mem.state f .FB_PARKED) l)
    (ho : OwnersOk s l)
    (hw : Waits s.mem.state s.mem.park s.mem.ctx s.mem.wait_fd s.mem.reg_fd l)
    {kind : ParkKind} {fd : Int}
    (hfd : kind = .PARK_FD → 0 ≤ fd ∧ s.mem.reg_fd f = fd) (hno : kind ≠ .PARK_FD → fd = -1) :
    Core (parked s f kind fd) l q := by
  refine ⟨hr.park, hl, ht, ho, ⟨?_, ?_, ?_⟩⟩
  · intro g hg hp
    by_cases hgf : g = f
    · subst hgf
      simp only [parked, Function.update_self] at hp ⊢
      exact hfd hp
    · simp only [parked, Function.update_of_ne hgf] at hg hp ⊢
      exact hw.holds g hg hp
  · intro g hg
    by_cases hgf : g = f
    · subst hgf; simp [parked]
    · simp only [parked, Function.update_of_ne hgf] at hg ⊢
      exact hw.cont g hg
  · intro g hg hne
    by_cases hgf : g = f
    · subst hgf
      simp only [parked, Function.update_self] at hne ⊢
      cases kind with
      | PARK_FD => exact ⟨rfl, Or.inl trivial⟩
      | PARK_TIMER => exact absurd (hno (by simp)) hne
      | PARK_ASYNC => exact absurd (hno (by simp)) hne
    · simp only [parked, Function.update_of_ne hgf] at hne ⊢
      exact hw.idle g hg hne

section
variable {L : Libc γ} {s : Reactor T γ σ κ} {l q : List Nat} {f : Nat}

theorem Core.running (h : Core s l q) (hcur : s.current = some f) :
    s.mem.state f = .FB_RUNNING ∧ f ∈ l ∧ s.mem.wait_fd f = -1 := by
  have hst := (h.roster.running f).mpr hcur
  have hlive := h.mem_live (f := f) (by simp [hst])
  refine ⟨hst, hlive, ?_⟩
  by_contra hne
  rcases (h.waits.idle f hlive hne).2 with hp | hp <;> simp [hst] at hp

/-- Parking without a descriptor, with a deadline. -/
theorem park_timed (h : Core s l q) (hcur : s.current = some f) {kind : ParkKind}
    (hkind : kind ≠ .PARK_FD) (deadline : UInt64) :
    (∃ s', timer_add L s f deadline = (false, s') ∧ Fails L s s' f l q ∧ s'.epoll = s.epoll ∧
        s'.mem.reg_fd = s.mem.reg_fd) ∨
    ∃ s', timer_add L s f deadline = (true, s') ∧
      Parks L s (park_current s' f kind kind.ctx) f kind (-1) (some deadline) l q ∧
      (park_current s' f kind kind.ctx).epoll = s.epoll ∧
      (park_current s' f kind kind.ctx).mem.reg_fd = s.mem.reg_fd := by
  obtain ⟨hst, hlive, hw⟩ := h.running hcur
  have hout : ¬ InHeap s f := h.not_in_heap (by simp [hst])
  rcases Timed.add L h.timed hout deadline with
    ⟨c, hc, heq⟩ | ⟨c, cap, heap, timer_i, hc, heq, htim, hslot, hrest⟩
  · exact Or.inl ⟨_, heq, ⟨⟨h.roster, h.links, h.timed, h.owners, h.waits⟩, rfl,
      fun _ _ => Or.inl rfl, ⟨rfl, hc, rfl, rfl, rfl⟩, rfl, rfl⟩, rfl, rfl⟩
  · right
    refine ⟨_, heq, ?_, rfl, rfl⟩
    rw [park_current_eq]
    swap
    · exact hw
    refine ⟨?_, ?_, fun _ _ => Or.inl rfl, ⟨rfl, hc, rfl, rfl, rfl⟩, rfl, rfl⟩
    · have hr := h.roster
      rw [hcur] at hr
      apply parked_core
      · exact hr
      · exact h.links
      · exact htim
      · exact h.owners
      · exact h.waits
      · exact fun e => absurd e hkind
      · exact fun _ => rfl
    · apply parked_view
      exact timed_view hslot hrest rfl rfl

/-- Parking without a descriptor and without a deadline. -/
theorem park_untimed (h : Core s l q) (hcur : s.current = some f) {kind : ParkKind}
    (hkind : kind ≠ .PARK_FD) :
    Parks L s (park_current s f kind kind.ctx) f kind (-1) none l q := by
  obtain ⟨hst, hlive, hw⟩ := h.running hcur
  have hnone := h.no_timer hlive (by simp [hst])
  rw [park_current_eq hw]
  refine ⟨?_, parked_view (untimed_view hnone) _ _, fun _ _ => Or.inl rfl, ⟨rfl, .refl, rfl, rfl,
    rfl⟩,
    rfl, rfl⟩
  have hr := h.roster
  rw [hcur] at hr
  exact parked_core hr h.links (h.timed.update hnone _) h.owners
    h.waits (fun e => absurd e hkind) fun _ => rfl

/-- **Sleep.** -/
theorem cfiber_ev_sleep_spec (h : Core s l q) (hcur : s.current = some f) (ns : UInt64) :
    (∃ s', cfiber_ev_sleep L s ns = (some .ERROR, s') ∧ Fails L s s' f l q ∧
        s'.epoll = s.epoll ∧ s'.mem.reg_fd = s.mem.reg_fd) ∨
    ∃ s', cfiber_ev_sleep L s ns = (none, s') ∧
      Parks L s s' f .PARK_TIMER (-1) (some (deadline_after s ns)) l q ∧ s'.epoll = s.epoll ∧
      s'.mem.reg_fd = s.mem.reg_fd := by
  unfold cfiber_ev_sleep
  rw [hcur]
  dsimp only
  have hkind : ParkKind.PARK_TIMER ≠ .PARK_FD := by simp
  rcases park_timed (L := L) h hcur hkind (deadline_after s ns) with
    ⟨s', heq, hfail, hk, hreg⟩ | ⟨s', heq, hpark, hk, hreg⟩
  · left
    rw [heq]
    refine ⟨_, rfl, ⟨?_, hfail.view, hfail.regs, ⟨hfail.kept.fibers, hfail.kept.libc,
      hfail.kept.repooled, hfail.kept.stack_pool, hfail.kept.clock⟩, hfail.current, hfail.zombie⟩,
      hk, hreg⟩
    exact ⟨hfail.core.roster, hfail.core.links, hfail.core.timed, hfail.core.owners,
      hfail.core.waits⟩
  · right
    rw [heq]
    exact ⟨_, rfl, hpark, hk, hreg⟩

/-- The reactor after a permit was consumed. -/
def consumed (s : Reactor T γ σ κ) (f : Nat) : Reactor T γ σ κ :=
  { s with mem := { s.mem with wake_pending := Function.update s.mem.wake_pending f false } }

theorem consumed_view (s : Reactor T γ σ κ) (f : Nat) :
    view (consumed s f) = Function.update (view s) f { view s f with wake_pending := false } := by
  funext g
  by_cases hgf : g = f
  · subst hgf
    simp [view, consumed]
  · simp [view, consumed, hgf]

theorem consumed_core (h : Core s l q) : Core (consumed s f) l q :=
  ⟨h.roster, h.links, h.timed, h.owners, h.waits⟩

/-- **Wait for a wake.**  A permit is consumed at once; otherwise the fiber parks, or its deadline
finds no room. -/
theorem cfiber_ev_wait_async_spec (h : Core s l q) (hcur : s.current = some f)
    (timeout_ns : Int64) :
    (s.mem.wake_pending f = true ∧
      cfiber_ev_wait_async L s timeout_ns = (some .READY, consumed s f)) ∨
    (s.mem.wake_pending f = false ∧
      ((∃ s', cfiber_ev_wait_async L s timeout_ns = (some .ERROR, s') ∧ Fails L s s' f l q ∧
          s'.epoll = s.epoll ∧ s'.mem.reg_fd = s.mem.reg_fd) ∨
       ∃ s', cfiber_ev_wait_async L s timeout_ns = (none, s') ∧
          Parks L s s' f .PARK_ASYNC (-1) (deadline_of s timeout_ns) l q ∧ s'.epoll = s.epoll ∧
          s'.mem.reg_fd = s.mem.reg_fd)) := by
  unfold cfiber_ev_wait_async
  rw [hcur]
  dsimp only
  by_cases hpend : s.mem.wake_pending f = true
  · left
    refine ⟨hpend, ?_⟩
    rw [if_pos hpend]
    unfold consumed
    rw [hcur]
  · right
    refine ⟨by simpa using hpend, ?_⟩
    rw [if_neg hpend]
    unfold deadline_of
    by_cases htime : timeout_ns ≥ 0
    · rw [if_pos htime, if_pos htime]
      have hkind : ParkKind.PARK_ASYNC ≠ .PARK_FD := by simp
      rcases park_timed (L := L) h hcur hkind (deadline_after s timeout_ns.toUInt64) with
        ⟨s', heq, hfail, hk, hreg⟩ | ⟨s', heq, hpark, hk, hreg⟩
      · left
        rw [heq]
        refine ⟨_, rfl, ⟨?_, hfail.view, hfail.regs, ⟨hfail.kept.fibers, hfail.kept.libc,
          hfail.kept.repooled, hfail.kept.stack_pool, hfail.kept.clock⟩, hfail.current,
          hfail.zombie⟩, hk, hreg⟩
        exact ⟨hfail.core.roster, hfail.core.links, hfail.core.timed, hfail.core.owners,
          hfail.core.waits⟩
      · right
        rw [heq]
        exact ⟨_, rfl, hpark, hk, hreg⟩
    · rw [if_neg htime, if_neg htime]
      exact Or.inr ⟨_, rfl, park_untimed h hcur (by simp), rfl, rfl⟩

/-! ## §3. Waiting on a descriptor. -/

theorem Robs.regs {reg_fd : Nat → Int} (h : Robs s f reg_fd) :
    ∀ g, g ≠ f → reg_fd g = s.mem.reg_fd g ∨ reg_fd g = -1 := by
  intro g hg
  rcases h g hg with hsame | ⟨hgone, -⟩
  · exact Or.inl hsame
  · exact Or.inr hgone

/-- The deadline of a `cfiber_ev_wait` finds no room: the registration just made is dropped. -/
theorem wait_no_room (K : Kernel κ δ) (h : Core s l q) (hcur : s.current = some f) {c c' : γ}
    {ow : Nat → Option Nat} {cap : Nat} {reg_fd : Nat → Int} (k : κ) (e : Errno)
    (hc : Reallocs L s.libc c) (hc' : Reallocs L c c') (hown : Owners ow cap reg_fd l)
    (hrob : Robs s f reg_fd) :
    Fails L s { detach_fd K { rearmed s c ow cap reg_fd k e with libc := c' } f with
        errno := .ENOMEM } f l q ∧
      (detach_fd K { rearmed s c ow cap reg_fd k e with libc := c' } f).mem.reg_fd f = -1 ∧
      Detached K { rearmed s c ow cap reg_fd k e with libc := c' } f
        (detach_fd K { rearmed s c ow cap reg_fd k e with libc := c' } f).epoll := by
  obtain ⟨hst, hlive, -⟩ := h.running hcur
  have hcore : Core { rearmed s c ow cap reg_fd k e with libc := c' } l q := by
    have := rearmed_core (c := c) h (by simp [hst]) k e hown hrob
    exact ⟨this.roster, this.links, this.timed, this.owners, this.waits⟩
  have hlet := detach_idle K hcore hlive fun hp => by
    have hp' : s.mem.state f = .FB_PARKED := hp
    rw [hst] at hp'
    exact absurd hp' (by simp)
  refine ⟨⟨?_, hlet.view, ?_, ⟨hlet.fibers, ?_, hlet.repooled, hlet.stack_pool, hlet.clock⟩,
    hlet.current, hlet.zombie⟩, by rw [hlet.reg, Function.update_self], hlet.kernel⟩
  · exact ⟨hlet.core.roster, hlet.core.links, hlet.core.timed, hlet.core.owners, hlet.core.waits⟩
  · intro g hg
    show (detach_fd K _ f).mem.reg_fd g = _ ∨ _
    rw [hlet.reg, Function.update_of_ne hg]
    exact hrob.regs g hg
  · show Reallocs L s.libc (detach_fd K _ f).libc
    rw [hlet.libc]
    exact hc.trans hc'

/-- The fiber parks on the descriptor it was just registered for. -/
theorem wait_parks (h : Core s l q) (hcur : s.current = some f) {c : γ} {ow : Nat → Option Nat}
    {cap : Nat} {reg_fd : Nat → Int} (k : κ) (e : Errno) {fd : Int} (hc : Reallocs L s.libc c)
    (hown : Owners ow cap reg_fd l) (hrob : Robs s f reg_fd) (hfd : 0 ≤ fd) (hreg : reg_fd f = fd)
    {heap : Nat → Nat} {len hcap : Nat} {timer_i : Nat → Option Nat} {dl : Nat → UInt64}
    (ht : Timed heap len hcap timer_i dl (Function.update s.mem.state f .FB_PARKED) l)
    {deadline : Option UInt64}
    (hv : view { rearmed s c ow cap reg_fd k e with
        mem := { (rearmed s c ow cap reg_fd k e).mem with deadline_ns := dl, timer_i := timer_i } } =
      Function.update (view s) f { view s f with deadline := deadline }) :
    Parks L s
      (parked { rearmed s c ow cap reg_fd k e with
          heap_cap := hcap
          heap_len := len
          heap := heap
          mem := { (rearmed s c ow cap reg_fd k e).mem with deadline_ns := dl, timer_i := timer_i } }
        f .PARK_FD fd) f .PARK_FD fd deadline l q := by
  obtain ⟨hst, hlive, -⟩ := h.running hcur
  refine ⟨?_, parked_view hv _ _, hrob.regs, ⟨rfl, hc, rfl, rfl, rfl⟩, rfl, rfl⟩
  have hr := h.roster
  rw [hcur] at hr
  apply parked_core
  · exact hr
  · exact h.links
  · exact ht
  · exact hown
  · exact h.waits.robbed (by simp [hst]) hrob
  · exact fun _ => ⟨hfd, hreg⟩
  · exact fun e => absurd rfl e

/-- **Wait on a descriptor.**  An error leaves every fiber as it was, except that idle holders may
have lost a registration; otherwise the fiber parks as the holder of `fd`, whose kernel entry was
armed for it. -/
theorem cfiber_ev_wait_spec (K : Kernel κ δ) (h : Core s l q) (hcur : s.current = some f) (fd : Int)
    (direction : UInt32) (timeout_ns : Int64) :
    (∃ s', cfiber_ev_wait L K s fd direction timeout_ns = (some .ERROR, s') ∧ Fails L s s' f l q ∧
      (s'.mem.reg_fd f = s.mem.reg_fd f ∨ s'.mem.reg_fd f = -1) ∧
      (Unarmed K s.epoll s'.epoll ∨
        ∃ k, Armed K s.epoll fd (epoll_events direction) f k ∧
          s'.epoll = (K.epoll_ctl .EPOLL_CTL_DEL fd 0 none k).2)) ∨
    ∃ s', cfiber_ev_wait L K s fd direction timeout_ns = (none, s') ∧
      Parks L s s' f .PARK_FD fd (deadline_of s timeout_ns) l q ∧ 0 ≤ fd ∧ s'.mem.reg_fd f = fd ∧
      Armed K s.epoll fd (epoll_events direction) f s'.epoll := by
  obtain ⟨hst, hlive, -⟩ := h.running hcur
  have hout : ¬ InHeap s f := h.not_in_heap (by simp [hst])
  unfold cfiber_ev_wait
  rw [hcur]
  dsimp only
  by_cases hdir : bad_direction direction = true
  · left
    rw [if_pos hdir]
    exact ⟨_, rfl, ⟨⟨by rw [← hcur]; exact h.roster, h.links, h.timed, h.owners, h.waits⟩, rfl,
      fun _ _ => Or.inl rfl, ⟨rfl, .refl, rfl, rfl, rfl⟩, hcur.symm, rfl⟩, Or.inl rfl,
      Or.inl Unarmed.refl⟩
  rw [if_neg hdir]
  obtain ⟨c, ow, cap, reg_fd, k, e, hc, hown, hrob, hres⟩ :=
    arm_fd_spec L K h.owners hlive fd (epoll_events direction)
  rcases hres with ⟨heq, hreg, hk⟩ | ⟨heq, hfd, hreg, hk⟩
  · left
    rw [heq]
    exact ⟨_, rfl, ⟨rearmed_core h (by simp [hst]) k e hown hrob, rfl, hrob.regs, ⟨rfl, hc, rfl, rfl, rfl⟩,
      rfl, rfl⟩, hreg, Or.inl hk⟩
  rw [heq]
  dsimp only
  unfold deadline_of
  by_cases htime : timeout_ns ≥ 0
  · rw [if_pos htime, if_pos htime]
    rcases Timed.add L (s := rearmed s c ow cap reg_fd k e) h.timed hout
        (deadline_after (rearmed s c ow cap reg_fd k e) timeout_ns.toUInt64) with
      ⟨c', hc', hadd⟩ | ⟨c', hcap, heap, timer_i, hc', hadd, htim, hslot, hrest⟩
    · left
      rw [hadd]
      obtain ⟨hfail, hgone, hdet⟩ := wait_no_room K h hcur k e hc hc' hown hrob
      refine ⟨_, rfl, hfail, Or.inr hgone, Or.inr ⟨k, hk, ?_⟩⟩
      have hne : reg_fd f ≠ -1 := by omega
      have hdel := hdet.2 hne
      rw [← hreg]
      exact hdel
    · right
      rw [hadd]
      refine ⟨_, rfl, ?_, hfd, hreg, hk⟩
      exact wait_parks (c := c') h hcur k e (hc.trans hc') hown hrob hfd hreg htim
        (timed_view hslot hrest rfl rfl)
  · right
    rw [if_neg htime, if_neg htime]
    have hnone := h.no_timer hlive (by simp [hst])
    refine ⟨_, rfl, ?_, hfd, hreg, hk⟩
    -- no timer is set: the deadlines and the heap stay as they are
    have htim : Timed s.heap s.heap_len s.heap_cap s.mem.timer_i s.mem.deadline_ns
        (Function.update s.mem.state f .FB_PARKED) l := h.timed.update hnone _
    exact wait_parks h hcur k e hc hown hrob hfd hreg htim (untimed_view hnone)

/-! ## §4. Leaving without parking, and coming back. -/

/-- **Yield.** -/
theorem cfiber_ev_yield_spec (h : Core s l q) (hcur : s.current = some f) :
    Core (cfiber_ev_yield s) l (q ++ [f]) ∧
      view (cfiber_ev_yield s) = Function.update (view s) f
        { view s f with state := .FB_READY, ctx := .yield, enqueued := s.enqueued f + 1 } ∧
      (cfiber_ev_yield s).mem.reg_fd = s.mem.reg_fd ∧ Kept L s (cfiber_ev_yield s) ∧
      (cfiber_ev_yield s).current = none ∧ (cfiber_ev_yield s).zombie = s.zombie ∧
      (cfiber_ev_yield s).epoll = s.epoll := by
  obtain ⟨hst, hlive, hw⟩ := h.running hcur
  have heq : cfiber_ev_yield s =
      { s with
        current := none
        mem := { s.mem with
          ctx := Function.update s.mem.ctx f .yield
          next := snocNext s.mem.next s.ready_tail f
          state := Function.update s.mem.state f .FB_READY }
        ready_head := snocHead s.ready_head s.ready_tail f
        ready_tail := some f
        enqueued := Function.update s.enqueued f (s.enqueued f + 1) } := by
    unfold cfiber_ev_yield
    rw [hcur]
    dsimp only
    rw [enqueue_eq]
  have hr := h.roster
  rw [hcur] at hr
  rw [heq]
  refine ⟨⟨hr.yield, h.links, h.timed.update (h.no_timer hlive (by simp [hst])) _, h.owners,
    h.waits.move (by simp) hw (fun _ _ => rfl) fun g hg => Function.update_of_ne hg _ _⟩, ?_, rfl,
    ⟨rfl, .refl, rfl, rfl, rfl⟩, rfl, rfl, rfl⟩
  funext g
  by_cases hgf : g = f
  · subst hgf
    simp [view]
  · simp [view, hgf]

/-- **Completion.** -/
theorem reactor_return_hook_spec (h : Core s l q) (hcur : s.current = some f)
    (hz : s.zombie = none) :
    Core (reactor_return_hook s) l q ∧
      view (reactor_return_hook s) = Function.update (view s) f
        { view s f with state := .FB_ZOMBIE } ∧
      (reactor_return_hook s).mem.reg_fd = s.mem.reg_fd ∧ Kept L s (reactor_return_hook s) ∧
      (reactor_return_hook s).current = none ∧ (reactor_return_hook s).zombie = some f ∧
      (reactor_return_hook s).epoll = s.epoll := by
  obtain ⟨hst, hlive, hw⟩ := h.running hcur
  have heq : reactor_return_hook s =
      { s with
        current := none
        zombie := some f
        mem := { s.mem with state := Function.update s.mem.state f .FB_ZOMBIE }
        active := s.active - 1 } := by
    unfold reactor_return_hook
    rw [hcur]
  have hr := h.roster
  rw [hcur, hz] at hr
  rw [heq]
  refine ⟨⟨hr.finish, h.links, h.timed.update (h.no_timer hlive (by simp [hst])) _, h.owners,
    h.waits.move (by simp) hw (fun _ _ => rfl) fun _ _ => rfl⟩, ?_, rfl, ⟨rfl, .refl, rfl, rfl,
    rfl⟩, rfl,
    rfl, rfl⟩
  funext g
  by_cases hgf : g = f
  · subst hgf
    simp [view]
  · simp [view, hgf]

/-- What the call that parked a fiber returns when the fiber runs again. -/
def FiberView.returned (v : FiberView) : Option EvStatus :=
  match v.ctx with
  | .entry | .yield => none
  | .wait | .sleep | .async => some v.wait_status

/-- `dequeue`, `enter_fiber` and what the fiber does first: the dispatched fiber, what its call
returned, and the reactor. -/
def dispatch (s : Reactor T γ σ κ) : Option (Nat × Option EvStatus × Reactor T γ σ κ) :=
  match dequeue s with
  | (none, _) => none
  | (some f, s) => some (f, switch_return (enter_fiber s f) f)

/-- **Dispatch.**  The head of the queue runs, and its wait, if it was in one, is over. -/
theorem dispatch_spec (h : Core s l (f :: q)) (hcur : s.current = none) :
    ∃ s', dispatch s = some (f, (view s f).returned, s') ∧ Core s' l q ∧
      view s' = Function.update (view s) f
        { view s f with state := .FB_RUNNING, wait_fd := -1 } ∧
      s'.mem.reg_fd = s.mem.reg_fd ∧ Kept L s s' ∧ s'.current = some f ∧ s'.zombie = s.zombie ∧
      s'.epoll = s.epoll := by
  have hst : s.mem.state f = .FB_READY := (h.roster.ready f).mp List.mem_cons_self
  have hlive : f ∈ l := h.mem_live (by simp [hst])
  have hhead : s.ready_head = some f := h.roster.queue.head
  have hr := h.roster
  rw [hcur] at hr
  -- outside a `cfiber_ev_wait` the descriptor is `-1` already
  have hwait : s.mem.ctx f ≠ .wait → Function.update s.mem.wait_fd f (-1) = s.mem.wait_fd := by
    intro hctx
    have hw : s.mem.wait_fd f = -1 := by
      by_contra hne
      exact hctx (h.waits.idle f hlive hne).1
    rw [← hw]
    exact Function.update_eq_self f _
  refine ⟨
    { s with
      mem := { s.mem with
        next := Function.update s.mem.next f none
        state := Function.update s.mem.state f .FB_RUNNING
        wait_fd := Function.update s.mem.wait_fd f (-1) }
      ready_head := s.mem.next f
      ready_tail := popTail (s.mem.next f) s.ready_tail
      current := some f }, ?_, ?_, ?_, rfl, ⟨rfl, .refl, rfl, rfl, rfl⟩, rfl, rfl, rfl⟩
  · unfold dispatch
    rw [dequeue_eq hhead]
    simp only [switch_return, enter_fiber, FiberView.returned, view]
    cases hctx : s.mem.ctx f with
    | wait => rfl
    | entry => rw [hwait (by simp [hctx])]
    | yield => rw [hwait (by simp [hctx])]
    | sleep => rw [hwait (by simp [hctx])]
    | async => rw [hwait (by simp [hctx])]
  · refine ⟨hr.dispatch, h.links, h.timed.update (h.no_timer hlive (by simp [hst])) _, h.owners, ?_⟩
    apply h.waits.move (by simp) (Function.update_self _ _ _)
    · exact fun g hg => Function.update_of_ne hg _ _
    · exact fun _ _ => rfl
  · funext g
    by_cases hgf : g = f
    · subst hgf
      simp [view]
    · simp [view, hgf]

end

end CFiber.Ev
