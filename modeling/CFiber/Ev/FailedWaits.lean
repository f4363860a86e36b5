/-
  CFiber.Ev.FailedWaits — what a wait that returns `ERROR` leaves behind.

  `cfiber_ev_wait`, `cfiber_ev_sleep` and `cfiber_ev_wait_async` fail at about seven places, some of
  them after a registration was dropped, a holder evicted or an entry armed.  Whatever the place, the
  state differs from the one before in the two descriptor maps, libc and the kernel only, and the
  kernel saw calls about descriptors only that no other fiber waits on (`Adjusted`).

  Main results:

    • `arm_fd_adjusted`, `wait_adjusted`, `sleep_adjusted`, `wait_async_adjusted` — each call;
    • `failed_wait_no_trace` — what follows for the caller and for everybody else;
    • `failed_wait_evicts`   — a fiber parked elsewhere can lose an idle registration.
-/
import CFiber.Ev.Registrations
import CFiber.Ev.Transfers

namespace CFiber.Ev

open CFiber.Base CFiber.Memory

variable {T : Target} {γ σ κ δ φ : Type}
variable {L : Libc γ} {P : StackPool σ} {K : Kernel κ δ}

/-! ## §1. What the registration code changes. -/

/-- From `k` the kernel came to a state through `epoll_ctl` calls about descriptors in `D`. -/
inductive Touched (K : Kernel κ δ) (D : Int → Prop) (k : κ) : κ → Prop where
  | refl : Touched K D k k
  | call {k' : κ} (op : CtlOp) {fd : Int} (events : UInt32) (p : Option Nat) :
      Touched K D k k' → D fd → Touched K D k (K.epoll_ctl op fd events p k').2

theorem Touched.trans {D : Int → Prop} {k k' k'' : κ} (h : Touched K D k k')
    (h' : Touched K D k' k'') : Touched K D k k'' := by
  induction h' with
  | refl => exact h
  | call op events p _ hD ih => exact ih.call op events p hD

/-- The entries of the other descriptors are as they were. -/
theorem Touched.entry {file : κ → Int → Option φ} {entry : κ → Int → φ → Option (Option Nat × Bool)}
    (E : EpollLaw K file entry) {D : Int → Prop} {k k' : κ} (h : Touched K D k k') {fd : Int}
    (hfd : ¬ D fd) (x : φ) : entry k' fd x = entry k fd x := by
  induction h with
  | refl => rfl
  | call op events p _ hD ih =>
      rw [← ih]
      apply E.ctl_apart
      left
      rintro rfl
      exact hfd hD

/-- `s'` is `s` but for the descriptor maps, libc, `errno` and calls about descriptors in `D`. -/
structure Adjusted (K : Kernel κ δ) (D : Int → Prop) (s s' : Reactor T γ σ κ) : Prop where
  rest : ∃ c ow cap reg_fd k e, s' = rearmed s c ow cap reg_fd k e
  touched : Touched K D s.epoll s'.epoll

section
variable {D : Int → Prop} {s s' s'' : Reactor T γ σ κ} {l q : List Nat} {f : Nat} {fd : Int}

theorem Adjusted.refl (s : Reactor T γ σ κ) : Adjusted K D s s :=
  ⟨⟨s.libc, s.fd_owner, s.fd_owner_cap, s.mem.reg_fd, s.epoll, s.errno, rfl⟩, .refl⟩

theorem Adjusted.trans (h : Adjusted K D s s') (h' : Adjusted K D s' s'') :
    Adjusted K D s s'' := by
  obtain ⟨c, ow, cap, reg_fd, k, e, rfl⟩ := h.rest
  obtain ⟨c', ow', cap', reg_fd', k', e', rfl⟩ := h'.rest
  exact ⟨⟨c', ow', cap', reg_fd', k', e', rfl⟩, h.touched.trans h'.touched⟩

/-- A change without a call. -/
theorem Adjusted.of_rearmed (c : γ) (ow : Nat → Option Nat) (cap : Nat) (reg_fd : Nat → Int)
    (e : Errno) : Adjusted K D s (rearmed s c ow cap reg_fd s.epoll e) :=
  ⟨⟨c, ow, cap, reg_fd, s.epoll, e, rfl⟩, .refl⟩

theorem epoll_ctl_adjusted (hD : D fd) (op : CtlOp) (events : UInt32) (p : Option Nat) :
    Adjusted K D s (epoll_ctl K s op fd events p).2 := by
  have htouched := Touched.call (K := K) op events p (Touched.refl (k := s.epoll)) hD
  unfold epoll_ctl
  rcases hk : K.epoll_ctl op fd events p s.epoll with ⟨_ | e, k⟩
  · rw [hk] at htouched
    exact ⟨⟨s.libc, s.fd_owner, s.fd_owner_cap, s.mem.reg_fd, k, s.errno, rfl⟩, htouched⟩
  · rw [hk] at htouched
    exact ⟨⟨s.libc, s.fd_owner, s.fd_owner_cap, s.mem.reg_fd, k, e, rfl⟩, htouched⟩

theorem detach_fd_adjusted (hD : s.mem.reg_fd f ≠ -1 → D (s.mem.reg_fd f)) :
    Adjusted K D s (detach_fd K s f) := by
  unfold detach_fd
  dsimp only
  split_ifs with hreg hget
  · exact .refl s
  · have hclear : Adjusted K D s _ := .of_rearmed s.libc
      (Function.update s.fd_owner (s.mem.reg_fd f).toNat none) s.fd_owner_cap
      (Function.update s.mem.reg_fd f (-1)) s.errno
    exact hclear.trans (epoll_ctl_adjusted (hD hreg) _ _ _)
  · exact .of_rearmed s.libc s.fd_owner s.fd_owner_cap _ s.errno

theorem arm_failed_adjusted (s : Reactor T γ σ κ) (f : Nat) (fd : Int) :
    Adjusted K D s (arm_failed s f fd).2 :=
  .of_rearmed s.libc _ s.fd_owner_cap _ s.errno

theorem arm_done_adjusted (s : Reactor T γ σ κ) (f : Nat) (fd : Int) :
    Adjusted K D s (arm_done s f fd).2 :=
  .of_rearmed s.libc _ s.fd_owner_cap _ s.errno

theorem arm_entry_adjusted (hD : D fd) (events : UInt32) (op : CtlOp) :
    Adjusted K D s (arm_entry K s f fd events op).2 := by
  have hctl := fun (s : Reactor T γ σ κ) op =>
    epoll_ctl_adjusted (K := K) (s := s) hD op (events ||| EPOLLONESHOT) (some f)
  unfold arm_entry
  have h1 := hctl s op
  rcases hk : epoll_ctl K s op fd (events ||| EPOLLONESHOT) (some f) with ⟨_ | _, s₁⟩
  · rw [hk] at h1
    dsimp only
    split
    · exact h1.trans (arm_failed_adjusted s₁ f fd)
    · -- the fallback
      rename_i op' _
      have h2 := hctl s₁ op'
      rcases hk' : epoll_ctl K s₁ op' fd (events ||| EPOLLONESHOT) (some f) with ⟨_ | _, s₂⟩
      · rw [hk'] at h2
        exact (h1.trans h2).trans (arm_failed_adjusted s₂ f fd)
      · rw [hk'] at h2
        exact (h1.trans h2).trans (arm_done_adjusted s₂ f fd)
  · rw [hk] at h1
    exact h1.trans (arm_done_adjusted s₁ f fd)

theorem arm_holder_adjusted
    (hD : (∀ g, s.fd_owner fd.toNat = some g → g ≠ f → ¬ ParkedOn s g fd) → D fd)
    (events : UInt32) : Adjusted K D s (arm_holder K s f fd events).2 := by
  unfold arm_holder
  cases hown : s.fd_owner fd.toNat with
  | none =>
      apply arm_entry_adjusted
      apply hD
      intro g hg
      rw [hown] at hg
      exact absurd hg (by simp)
  | some holder =>
      dsimp only
      split_ifs with hne hbusy
      · exact .of_rearmed s.libc s.fd_owner s.fd_owner_cap s.mem.reg_fd .EBUSY
      · -- the holder is evicted
        have hfree : D fd := by
          apply hD
          intro g hg _
          rw [hown] at hg
          obtain rfl := Option.some.inj hg
          exact hbusy
        have hevict : Adjusted K D s _ := .of_rearmed s.libc s.fd_owner s.fd_owner_cap
          (Function.update s.mem.reg_fd holder (-1)) s.errno
        exact hevict.trans (arm_entry_adjusted hfree _ _)
      · apply arm_entry_adjusted
        apply hD
        intro g hg hgf
        rw [hown] at hg
        obtain rfl := Option.some.inj hg
        exact absurd hgf hne

/-- No fiber but `f` is parked on `fd`. -/
def Unawaited (s : Reactor T γ σ κ) (f : Nat) (fd : Int) : Prop := ∀ g, g ≠ f → ¬ ParkedOn s g fd

theorem Waiting.parkedOn (h : Waiting s f fd) : ParkedOn s f fd := ⟨h.state, h.wait_fd⟩

/-- Whoever is parked on a descriptor has it on record. -/
def Recorded (s : Reactor T γ σ κ) (l : List Nat) : Prop :=
  ∀ g fd, 0 ≤ fd → ParkedOn s g fd → g ∈ l ∧ s.mem.reg_fd g = fd

theorem Core.recorded (h : Core s l q) : Recorded s l := by
  intro g fd hfd hg
  obtain ⟨-, hlive, hreg⟩ := h.owners.get_some (h.holder hg (by omega))
  exact ⟨hlive, hreg⟩

/-- Nobody else waits on what a fiber holds. -/
theorem Recorded.unawaited (hr : Recorded s l) (h : OwnersOk s l) (hf : f ∈ l)
    (hreg : s.mem.reg_fd f ≠ -1) : Unawaited s f (s.mem.reg_fd f) := by
  intro g hgf hg
  have hlow := h.low f hf
  have hpos : 0 ≤ s.mem.reg_fd f := by omega
  obtain ⟨hlive, hsame⟩ := hr g _ hpos hg
  have hget := h.get_reg hlive (by omega)
  rw [hsame, h.get_reg hf hpos] at hget
  exact hgf (Option.some.inj hget).symm

theorem arm_slot_adjusted (hr : Recorded s l) (h : OwnersOk s l) (hf : f ∈ l) (hfd : 0 ≤ fd)
    (events : UInt32) : Adjusted K (Unawaited s f) s (arm_slot K s f fd events).2 := by
  unfold arm_slot
  dsimp only
  split_ifs with hmoved
  · -- the registration of another descriptor is dropped first
    have hdetach : Adjusted K (Unawaited s f) s (detach_fd K s f) :=
      detach_fd_adjusted (hr.unawaited h hf)
    apply hdetach.trans
    obtain ⟨ow, k, e, heq, hown, -, -⟩ := detach_fd_spec K h hf
    rw [heq]
    apply arm_holder_adjusted
    intro hfree g hgf hg
    obtain ⟨hlive, hreg⟩ := hr g fd hfd hg
    apply hfree g _ hgf hg
    apply (hown.law g hlive fd.toNat).mpr
    rw [Function.update_of_ne hgf, hreg]
    omega
  · apply arm_holder_adjusted
    intro hfree g hgf hg
    obtain ⟨hlive, hreg⟩ := hr g fd hfd hg
    apply hfree g _ hgf hg
    apply (h.law g hlive fd.toNat).mpr
    rw [hreg]
    omega

/-- **Registering** changes the maps, and tells the kernel about no descriptor that another fiber
waits on. -/
theorem arm_fd_adjusted (L : Libc γ) (h : Core s l q) (hf : f ∈ l) (fd : Int) (events : UInt32) :
    Adjusted K (Unawaited s f) s (arm_fd L K s f fd events).2 := by
  unfold arm_fd
  split_ifs with hneg
  · exact .of_rearmed s.libc s.fd_owner s.fd_owner_cap s.mem.reg_fd .EBADF
  · rcases fd_owner_reserve_spec L h.owners fd with ⟨c, -, heq⟩ | ⟨c, ow, cap, -, -, hown, heq⟩
    · rw [heq]
      exact .of_rearmed c s.fd_owner s.fd_owner_cap s.mem.reg_fd .ENOMEM
    · rw [heq]
      have hgrow : Adjusted K (Unawaited s f) s
          { s with libc := c, fd_owner := ow, fd_owner_cap := cap } :=
        .of_rearmed c ow cap s.mem.reg_fd s.errno
      exact hgrow.trans (arm_slot_adjusted (K := K)
        (s := { s with libc := c, fd_owner := ow, fd_owner_cap := cap }) h.recorded hown hf
        (by omega) events)

/-! ## §2. The calls. -/

theorem timer_add_refused {deadline : UInt64} (h : timer_add L s f deadline = (false, s')) :
    ∃ c, s' = { s with libc := c } := by
  unfold timer_add at h
  rcases heap_reserve_spec L s with ⟨c, -, heq⟩ | ⟨c, cap, -, -, heq⟩
  · rw [heq] at h
    exact ⟨c, (congrArg Prod.snd h).symm⟩
  · rw [heq] at h
    exact absurd (congrArg Prod.fst h) (by simp)

theorem timer_add_adjusted {deadline : UInt64} (h : timer_add L s f deadline = (false, s')) :
    Adjusted K D s s' := by
  obtain ⟨c, rfl⟩ := timer_add_refused h
  exact .of_rearmed c s.fd_owner s.fd_owner_cap s.mem.reg_fd s.errno

theorem Adjusted.failed (h : Adjusted K D s s') (e : Errno) :
    Adjusted K D s { s' with errno := e } :=
  h.trans (.of_rearmed s'.libc s'.fd_owner s'.fd_owner_cap s'.mem.reg_fd e)

theorem sleep_adjusted (hcur : s.current = some f) {ns : UInt64}
    (h : cfiber_ev_sleep L s ns = (some .ERROR, s')) : Adjusted K D s s' := by
  unfold cfiber_ev_sleep at h
  rw [hcur] at h
  dsimp only at h
  rcases hadd : timer_add L s f (deadline_after s ns) with ⟨_ | _, s₁⟩
  · rw [hadd] at h
    obtain ⟨-, rfl⟩ := Prod.mk.inj h
    exact (timer_add_adjusted hadd).failed .ENOMEM
  · rw [hadd] at h
    exact absurd (congrArg Prod.fst h) (by simp)

theorem wait_async_adjusted (hcur : s.current = some f) {timeout_ns : Int64}
    (h : cfiber_ev_wait_async L s timeout_ns = (some .ERROR, s')) : Adjusted K D s s' := by
  unfold cfiber_ev_wait_async at h
  rw [hcur] at h
  dsimp only at h
  split_ifs at h with hpermit htimed
  · exact absurd (congrArg Prod.fst h) (by simp)
  · rcases hadd : timer_add L s f (deadline_after s timeout_ns.toUInt64) with ⟨_ | _, s₁⟩
    · rw [hadd] at h
      obtain ⟨-, rfl⟩ := Prod.mk.inj h
      exact (timer_add_adjusted hadd).failed .ENOMEM
    · rw [hadd] at h
      exact absurd (congrArg Prod.fst h) (by simp)
  · exact absurd (congrArg Prod.fst h) (by simp)

/-- A descriptor just registered is not awaited by anybody else. -/
theorem unawaited_of_armed {ow : Nat → Option Nat} {cap : Nat} {reg_fd : Nat → Int}
    (h : Core s l q) (hf : f ∈ l) (hown : Owners ow cap reg_fd l) (hrob : Robs s f reg_fd)
    (hfd : 0 ≤ fd) (hreg : reg_fd f = fd) : Unawaited s f fd := by
  intro g hgf hg
  obtain ⟨hlive, hrec⟩ := h.recorded g fd hfd hg
  have hsame : reg_fd g = fd := by
    rcases hrob g hgf with hkept | ⟨-, hfree⟩
    · rw [hkept, hrec]
    · rw [hrec] at hfree
      exact absurd hg hfree
  have hslot : ∀ g ∈ l, reg_fd g = fd → ow fd.toNat = some g := by
    intro g hg hrec
    apply (hown.law g hg fd.toNat).mpr
    omega
  have hboth := (hslot g hlive hsame).symm.trans (hslot f hf hreg)
  exact hgf (Option.some.inj hboth)

theorem wait_adjusted (h : Core s l q) (hcur : s.current = some f) {direction : UInt32}
    {timeout_ns : Int64}
    (hwait : cfiber_ev_wait L K s fd direction timeout_ns = (some .ERROR, s')) :
    Adjusted K (Unawaited s f) s s' := by
  obtain ⟨-, hlive, -⟩ := h.running hcur
  unfold cfiber_ev_wait at hwait
  rw [hcur] at hwait
  dsimp only at hwait
  by_cases hdir : bad_direction direction = true
  · rw [if_pos hdir] at hwait
    obtain ⟨-, rfl⟩ := Prod.mk.inj hwait
    rw [← hcur]
    exact .of_rearmed s.libc s.fd_owner s.fd_owner_cap s.mem.reg_fd .EINVAL
  rw [if_neg hdir] at hwait
  have harm := arm_fd_adjusted (K := K) L h hlive fd (epoll_events direction)
  obtain ⟨c, ow, cap, reg_fd, k, e, -, hown, hrob, hres⟩ :=
    arm_fd_spec L K h.owners hlive fd (epoll_events direction)
  rcases hres with ⟨heq, -, -⟩ | ⟨heq, hfd, hreg, -⟩
  · rw [heq] at hwait harm
    obtain ⟨-, rfl⟩ := Prod.mk.inj hwait
    exact harm
  rw [heq] at hwait harm
  dsimp only at hwait harm
  split_ifs at hwait with htime
  · rcases hadd : timer_add L (rearmed s c ow cap reg_fd k e) f
        (deadline_after (rearmed s c ow cap reg_fd k e) timeout_ns.toUInt64) with ⟨_ | _, s₁⟩
    · -- no room for the deadline: the registration just made is dropped
      rw [hadd] at hwait
      obtain ⟨-, rfl⟩ := Prod.mk.inj hwait
      have hroom := timer_add_adjusted (K := K) (D := Unawaited s f) hadd
      have hdrop : Adjusted K (Unawaited s f) s₁ (detach_fd K s₁ f) := by
        apply detach_fd_adjusted
        intro _
        obtain ⟨c', rfl⟩ := timer_add_refused hadd
        show Unawaited s f (reg_fd f)
        rw [hreg]
        exact unawaited_of_armed h hlive hown hrob hfd hreg
      exact ((harm.trans hroom).trans hdrop).failed .ENOMEM
    · rw [hadd] at hwait
      exact absurd (congrArg Prod.fst hwait) (by simp [park_on_fd])
  · exact absurd (congrArg Prod.fst hwait) (by simp [park_on_fd])

/-- A blocking call of the fiber in control that answered `ERROR`. -/
theorem call_adjusted {S S' : Sys T γ σ κ} {a : Action δ} {round_end : Option Nat}
    (h : Core S.r l q) (hcur : S.r.current = some f) (hpc : S.pc = .fiber f round_end)
    (ha : a.blocks = true) (hstep : step L P K S a = some S')
    (herr : S'.ret = some (.status .ERROR)) :
    S'.pc = S.pc ∧ Adjusted K (Unawaited S.r f) S.r S'.r := by
  -- a call that answers does not leave the fiber
  have hcalled : ∀ {x : Option EvStatus × Reactor T γ σ κ}, S' = called S f round_end x →
      x.1 = some .ERROR ∧ S'.pc = S.pc ∧ S'.r = x.2 := by
    intro x hx
    obtain ⟨_ | st, r⟩ := x
    · rw [hx] at herr
      exact absurd herr (by simp [called])
    · rw [hx] at herr
      obtain rfl := Ret.status.inj (Option.some.inj herr)
      rw [hx]
      exact ⟨rfl, rfl, rfl⟩
  cases a with
  | wait fd direction timeout_ns =>
      simp only [step, hpc, act, Option.some.injEq] at hstep
      obtain ⟨hret, hstay, hr⟩ := hcalled hstep.symm
      exact ⟨hstay, wait_adjusted h hcur (Prod.ext hret hr.symm)⟩
  | sleep ns =>
      simp only [step, hpc, act, Option.some.injEq] at hstep
      obtain ⟨hret, hstay, hr⟩ := hcalled hstep.symm
      exact ⟨hstay, sleep_adjusted hcur (Prod.ext hret hr.symm)⟩
  | wait_async timeout_ns =>
      simp only [step, hpc, act, Option.some.injEq] at hstep
      obtain ⟨hret, hstay, hr⟩ := hcalled hstep.symm
      exact ⟨hstay, wait_async_adjusted hcur (Prod.ext hret hr.symm)⟩
  | _ => exact absurd ha (by simp [Action.blocks])

end

/-! ## §3. No trace. -/

/-- **No trace.**  The caller runs on, with no deadline and nothing armed; queue, counters, heap and
permits are as they were; the maps agree; parked fibers look the same, and those parked on a
descriptor hold it still, their kernel entries untouched. -/
structure NoTrace (entry : κ → Int → φ → Option (Option Nat × Bool)) (S S' : Sys T γ σ κ)
    (f : Nat) : Prop where
  running : S'.pc = S.pc ∧ S'.r.current = some f ∧ S'.r.mem.state f = .FB_RUNNING
  untimed : S'.r.mem.timer_i f = none ∧ ¬ InHeap S'.r f
  unarmed : ∀ fd x, entry S'.r.epoll fd x ≠ some (some f, true)
  queue : S'.r.ready_head = S.r.ready_head ∧ S'.r.ready_tail = S.r.ready_tail ∧
    S'.r.mem.next = S.r.mem.next
  counters : S'.r.active = S.r.active ∧ S'.r.blocked = S.r.blocked
  heap : S'.r.heap_len = S.r.heap_len ∧ S'.r.heap = S.r.heap ∧ S'.r.heap_cap = S.r.heap_cap
  deadlines : S'.r.mem.timer_i = S.r.mem.timer_i ∧ S'.r.mem.deadline_ns = S.r.mem.deadline_ns
  permits : S'.r.mem.wake_pending = S.r.mem.wake_pending
  owners : ∀ (fd g : Nat), S'.r.fd_owner fd = some g ↔
    S'.r.mem.state g ≠ .FB_FREE ∧ S'.r.mem.reg_fd g = (fd : Int)
  parked : ∀ g, S.r.mem.state g = .FB_PARKED → view S'.r g = view S.r g
  holders : ∀ g fd, Waiting S.r g fd → Waiting S'.r g fd ∧ S'.r.mem.reg_fd g = fd ∧
    fd_owner_get S'.r fd = some g ∧ ∀ x, entry S'.r.epoll fd x = entry S.r.epoll fd x

/-- **A failed wait leaves no trace**, but that it may have taken over the registration of a fiber
that does not wait on the descriptor. -/
theorem failed_wait_no_trace {out : γ → List Region} {good : γ → Prop}
    {file : κ → Int → Option φ} {entry : κ → Int → φ → Option (Option Nat × Bool)}
    (H : LibcOk T L out good) (E : EpollLaw K file entry) {r : Reactor T γ σ κ}
    (hr : Fresh T out good r) (hnew : ∀ fd x p, entry r.epoll fd x ≠ some (p, true))
    {actions : List (Action δ)} {S S' : Sys T γ σ κ}
    (hrun : exec (step L P K) (boot r) actions = some S) {f : Nat} {round_end : Option Nat}
    (hpc : S.pc = .fiber f round_end) {a : Action δ} (ha : a.blocks = true)
    (hstep : step L P K S a = some S') (herr : S'.ret = some (.status .ERROR)) :
    NoTrace entry S S' f := by
  obtain ⟨q, hok, hreg⟩ := exec_registered H E (boot_ok hr) (.start hnew) hrun
  obtain ⟨m, q', hdoes⟩ := step_does H hok hstep
  have hok' := hdoes.ok
  have hreg' := hreg.step E hok hdoes
  obtain ⟨hcur, -⟩ := hok.current hpc
  obtain ⟨hstay, hadj⟩ := call_adjusted hok.core hcur hpc ha hstep herr
  obtain ⟨hcur', -⟩ := hok'.current (hstay.trans hpc)
  obtain ⟨hst', hlive', -⟩ := hok'.core.running hcur'
  have hnotparked : S'.r.mem.state f ≠ .FB_PARKED := by simp [hst']
  obtain ⟨c, ow, cap, reg_fd, k, e, heq⟩ := hadj.rest
  have hview : ∀ g, view S'.r g = view S.r g := by
    intro g
    rw [heq]
    rfl
  exact {
    running := ⟨hstay, hcur', hst'⟩
    untimed := ⟨hok'.core.no_timer hlive' hnotparked, hok'.core.not_in_heap hnotparked⟩
    unarmed := by
      -- an armed registration is that of a fiber parked on it, and `f` is running
      intro fd x hp
      obtain ⟨-, g, hg, hw⟩ := hreg'.armed hp
      obtain rfl := Option.some.inj hg
      exact hnotparked hw.state
    queue := by rw [heq]; exact ⟨rfl, rfl, rfl⟩
    counters := by rw [heq]; exact ⟨rfl, rfl⟩
    heap := by rw [heq]; exact ⟨rfl, rfl, rfl⟩
    deadlines := by rw [heq]; exact ⟨rfl, rfl⟩
    permits := by rw [heq]; rfl
    owners := hok'.core.owner_iff
    parked := fun g _ => hview g
    holders := by
      intro g fd hw
      have hw' := hw.of_view (hview g)
      refine ⟨hw', (hok'.core.waiting_reg hw').2, hok'.core.waiting_owner hw', ?_⟩
      -- the call has touched descriptors of `f` only, or free ones
      intro x
      apply hadj.touched.entry E
      intro hfree
      have hgf : g ≠ f := by
        rintro rfl
        exact hnotparked hw'.state
      exact hfree g hgf hw.parkedOn }

/-- A fiber waits on `3`, and the other one has control. -/
def one_wait : List (Action Choice) :=
  [.spawn, .spawn, .run, .turn, .turn, .wait 3 EPOLLIN (-1), .turn, .turn]

/-- The other one asks for `3`: `EBUSY`. -/
theorem failed_wait_no_trace_epoll : ∃ r S S' f, start = some r ∧
    exec (step bumpLibc roomyStacks epoll) (boot r) one_wait = some S ∧
    step bumpLibc roomyStacks epoll S (.wait 3 EPOLLIN 0) = some S' ∧
    S'.ret = some (.status .ERROR) ∧ NoTrace Epoll.stored S S' f := by
  have hsome : ((runs one_wait).bind fun S =>
      (step bumpLibc roomyStacks epoll S (.wait 3 EPOLLIN 0)).map fun S' => (S.pc, S'.ret)) =
        some (.fiber 512 (some 512), some (.status .ERROR)) := by decide +kernel
  obtain ⟨S, hS, hsome⟩ := Option.bind_eq_some_iff.mp hsome
  obtain ⟨S', hstep, heq⟩ := Option.map_eq_some_iff.mp hsome
  obtain ⟨hpc, herr⟩ := Prod.mk.inj heq
  obtain ⟨r, hr, hrun⟩ := runs_some hS
  exact ⟨r, S, S', 512, hr, hrun, hstep, herr, failed_wait_no_trace bumpLibc_ok epoll_law
    (start_fresh hr) (epoll_unarmed hr) hrun hpc rfl hstep herr⟩

/-- A libc that has room for the descriptor map, and none for the timer heap. -/
def tightLibc : Libc (Nat × List Region) where
  calloc := bumpLibc.calloc
  free := bumpLibc.free
  realloc n c := (decide (512 ≤ n), c)

/-- A fiber's wait on `3` succeeds and it parks in `cfiber_ev_wait_async`; then the other fiber has
control. -/
def idle_holder : List (Action Choice) :=
  [.spawn, .spawn, .run, .turn, .turn, .wait 3 EPOLLIN (-1), .turn, .turn, .yield, .turn, .turn,
    .poll (.report [(3, 30)] false), .turn, .turn, .turn, .turn, .turn, .yield, .turn, .turn,
    .wait_async (-1), .turn, .turn, .poll (.report [] false), .turn, .turn, .turn, .turn]

/-- **An idle registration is taken over** by a wait that fails: its deadline finds no room, after
the parked holder lost its own record. -/
theorem failed_wait_evicts : ∃ r S S', start = some r ∧
    exec (step tightLibc roomyStacks epoll) (boot r) idle_holder = some S ∧
    step tightLibc roomyStacks epoll S (.wait 3 EPOLLIN 0) = some S' ∧
    S'.ret = some (.status .ERROR) ∧ S.r.mem.state 192 = .FB_PARKED ∧
    S.r.mem.reg_fd 192 = 3 ∧ S'.r.mem.state 192 = .FB_PARKED ∧ S'.r.mem.reg_fd 192 = -1 := by
  have hsome : ((start.bind fun r =>
      exec (step tightLibc roomyStacks epoll) (boot r) idle_holder).bind fun S =>
        (step tightLibc roomyStacks epoll S (.wait 3 EPOLLIN 0)).map fun S' =>
          (S'.ret, S.r.mem.state 192, S.r.mem.reg_fd 192, S'.r.mem.state 192,
            S'.r.mem.reg_fd 192)) =
        some (some (.status .ERROR), .FB_PARKED, 3, .FB_PARKED, -1) := by decide +kernel
  obtain ⟨S, hS, hsome⟩ := Option.bind_eq_some_iff.mp hsome
  obtain ⟨r, hr, hrun⟩ := Option.bind_eq_some_iff.mp hS
  obtain ⟨S', hstep, heq⟩ := Option.map_eq_some_iff.mp hsome
  simp only [Prod.mk.injEq] at heq
  exact ⟨r, S, S', hr, hrun, hstep, heq⟩

end CFiber.Ev
