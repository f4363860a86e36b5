/-
  CFiber.Ev.Census — the reactor's bookkeeping in every reachable state.

  `ReactorOk` puts what the invariant says of the counters, the ready queue, the running fiber, the
  timer heap and the live list in the terms of the code, and with it the assertion before
  `epoll_wait`.

  The two counters are C's `int`.  In every reachable state they are the numbers of fibers modulo
  `2 ^ 32`, so they are these numbers as long as fewer than `2 ^ 31` fibers have not returned; then
  all the books are in order, and only then (`reactor_ok_iff`).  `2 ^ 31` spawns in a row break them
  (`active_overflows`).
-/
import CFiber.Ev.Environment

namespace CFiber.Ev

open CFiber.Base CFiber.Memory

variable {T : Target} {γ σ κ δ : Type}
variable {L : Libc γ} {P : StackPool σ} {K : Kernel κ δ}
variable {out : γ → List Region} {good : γ → Prop}

/-! ## §1. The books. -/

/-- **The bookkeeping.** -/
structure ReactorOk (S : Sys T γ σ κ) : Prop where
  /-- READY, RUNNING and PARKED fibers are active. -/
  active : S.r.active.toInt = census isActive S.r.mem.state S.alive
  blocked : S.r.blocked.toInt = census isParked S.r.mem.state S.alive
  /-- The queue is a list without a cycle from `ready_head` to `ready_tail`. -/
  ready : ∃ q, Fifo S.r.mem.next S.r.ready_head S.r.ready_tail q ∧ q.Nodup ∧
    ∀ f, f ∈ q ↔ S.r.mem.state f = .FB_READY
  running : ∀ f, S.r.mem.state f = .FB_RUNNING ↔ S.r.current = some f
  heap : ∀ i < S.r.heap_len, S.r.mem.state (S.r.heap i) = .FB_PARKED ∧
    S.r.mem.timer_i (S.r.heap i) = some i ∧ ∀ j < S.r.heap_len, S.r.heap i = S.r.heap j → i = j
  /-- The live list links the fibers spawned and not yet recycled. -/
  links : DList S.r.mem.live_next S.r.mem.live_prev S.r.live_head S.alive
  nodup : S.alive.Nodup
  live : ∀ f, f ∈ S.alive ↔ S.r.mem.state f ≠ .FB_FREE
  /-- `ASSERT(s->ready_head || s->blocked > 0)`. -/
  assert : S.pc = .check → S.r.active ≠ 0 → S.r.ready_head.isSome = true ∨ S.r.blocked > 0

/-- The fibers that were spawned and have not returned. -/
def busy (S : Sys T γ σ κ) : Nat := S.alive.countP fun f => isActive (S.r.mem.state f)

theorem busy_eq (S : Sys T γ σ κ) : (busy S : Int) = census isActive S.r.mem.state S.alive := rfl

/-- Outside a fiber and without a zombie every live fiber is busy. -/
theorem Ok.busy_alive {S : Sys T γ σ κ} {q : List Nat} (hok : Ok out good S q)
    (hz : S.r.zombie = none) : busy S = S.alive.length := by
  refine List.countP_eq_length.mpr fun f hf => ?_
  have hfree := (hok.core.roster.live f).mp hf
  cases hst : S.r.mem.state f with
  | FB_FREE => exact absurd hst hfree
  | FB_ZOMBIE => exact absurd ((hok.core.roster.dead f).mp hst) (by rw [hz]; simp)
  | _ => rfl

/-! ## §2. What the counters read. -/

/-- A count below `2 ^ 31` is what an `int` reads. -/
theorem census_toInt {p : FiberState → Bool} {state : Nat → FiberState} {l : List Nat}
    (h : census p state l < 2 ^ 31) :
    (Int32.ofInt (census p state l)).toInt = census p state l := by
  have hnonneg : 0 ≤ census p state l := Int.natCast_nonneg _
  exact Int32.toInt_ofInt_of_le (by omega) h

theorem parked_le_active (state : Nat → FiberState) (l : List Nat) :
    census isParked state l ≤ census isActive state l := by
  refine Int.ofNat_le.mpr (List.countP_mono_left fun f _ hp => ?_)
  cases hst : state f <;> simp_all [isParked, isActive]

/-- The counter is zero only at a multiple of `2 ^ 32`. -/
theorem Ok.dvd_busy {S : Sys T γ σ κ} {q : List Nat} (hok : Ok out good S q)
    (h : S.r.active = 0) : 2 ^ 32 ∣ busy S := by
  have hzero : (busy S : Int).bmod (2 ^ 32) = 0 := by
    have hcount := hok.core.roster.active
    rw [h, ← busy_eq] at hcount
    exact (Int32.ofInt_eq_iff_bmod_eq_toInt _ 0).mp hcount.symm
  have hdvd := Int.dvd_of_bmod_eq_zero hzero
  exact Int.natCast_dvd_natCast.mp (by simpa using hdvd)

/-- Below `2 ^ 31` busy fibers it counts them. -/
theorem Ok.active_toInt {S : Sys T γ σ κ} {q : List Nat} (hok : Ok out good S q)
    (hlt : busy S < 2 ^ 31) : S.r.active.toInt = busy S := by
  have hcensus := busy_eq S
  rw [hok.core.roster.active, census_toInt (by omega), hcensus]

/-- Without a current or completed fiber the active ones are ready or parked. -/
theorem Roster.waitable {nx : Nat → Option Nat} {hd tl : Option Nat} {state : Nat → FiberState}
    {active blocked : Int32} {l q : List Nat}
    (h : Roster nx hd tl state none none active blocked l q) (ha : active ≠ 0)
    (hlt : census isActive state l < 2 ^ 31) : hd.isSome = true ∨ blocked > 0 := by
  rw [h.active] at ha
  obtain ⟨f, hf, hact⟩ : ∃ f ∈ l, isActive (state f) = true := by
    by_contra hno
    apply ha
    unfold census
    rw [List.countP_eq_zero.mpr]
    · rfl
    · exact fun f hf hact => hno ⟨f, hf, hact⟩
  cases hst : state f with
  | FB_FREE => simp [hst, isActive] at hact
  | FB_ZOMBIE => simp [hst, isActive] at hact
  | FB_RUNNING => exact absurd ((h.running f).mp hst) (by simp)
  | FB_READY =>
      left
      have hq := (h.ready f).mpr hst
      rw [h.queue.head]
      cases q with
      | nil => exact absurd hq List.not_mem_nil
      | cons g q => rfl
  | FB_PARKED =>
      right
      have hpos : 0 < l.countP fun g => isParked (state g) :=
        List.countP_pos_iff.mpr ⟨f, hf, by simp [hst, isParked]⟩
      have hle := parked_le_active state l
      rw [gt_iff_lt, Int32.lt_iff_toInt_lt, h.blocked, census_toInt (by omega)]
      exact Int.natCast_pos.mpr hpos

/-- **Below `2 ^ 31` busy fibers** the books are in order. -/
theorem Ok.reactor {S : Sys T γ σ κ} {q : List Nat} (h : Ok out good S q)
    (hlt : busy S < 2 ^ 31) : ReactorOk S where
  active := h.active_toInt hlt
  blocked := by
    have hle := parked_le_active S.r.mem.state S.alive
    rw [← busy_eq] at hle
    rw [h.core.roster.blocked, census_toInt (by omega)]
  ready := ⟨q, h.core.roster.queue, h.core.roster.queue.nodup, h.core.roster.ready⟩
  running := h.core.roster.running
  heap := by
    intro i hi
    have hindex := h.core.timed.index
    exact ⟨h.core.timed.parked _ ⟨i, hi, rfl⟩, hindex i hi, fun j hj e => hindex.inj hi hj e⟩
  links := h.core.links
  nodup := h.core.roster.nodup
  live := h.core.roster.live
  assert := by
    intro hpc ha
    have hctl := h.control
    rw [hpc] at hctl
    have hr := h.core.roster
    rw [hctl.1, hctl.2] at hr
    exact hr.waitable ha (by rw [← busy_eq]; omega)

/-! ## §3. Every reachable state. -/

/-- **When the books are in order.**  In every state that a run can reach, exactly if fewer than
`2 ^ 31` fibers were spawned and have not returned. -/
theorem reactor_ok_iff (H : LibcOk T L out good) {r : Reactor T γ σ κ} (hr : Fresh T out good r)
    {as : List (Action δ)} {S : Sys T γ σ κ} (h : exec (step L P K) (boot r) as = some S) :
    ReactorOk S ↔ busy S < 2 ^ 31 := by
  obtain ⟨q, hok⟩ := exec_ok H (boot_ok hr) h
  constructor
  · intro hbooks
    have hcount := hbooks.active
    have hint := S.r.active.toInt_lt
    rw [← busy_eq] at hcount
    omega
  · exact hok.reactor

/-- One fiber waits on a descriptor, one has returned, one was just spawned by it. -/
theorem reactor_ok_iff_epoll : ∃ r S, start = some r ∧
    exec (step bumpLibc roomyStacks epoll) (boot r)
      [.spawn, .spawn, .run, .turn, .turn, .wait 3 1 (-1), .turn, .turn, .spawn, .finish] = some S ∧
    busy S = 2 ∧ ReactorOk S := by
  have hsome : (runs [.spawn, .spawn, .run, .turn, .turn, .wait 3 1 (-1), .turn, .turn, .spawn,
      .finish]).map busy = some 2 := by decide +kernel
  obtain ⟨S, hS, hbusy⟩ := Option.map_eq_some_iff.mp hsome
  obtain ⟨r, hr, hrun⟩ := runs_some hS
  exact ⟨r, S, hr, hrun, hbusy,
    (reactor_ok_iff bumpLibc_ok (start_fresh hr) hrun).mpr (by omega)⟩

/-! ## §4. A run that overflows `active`. -/

theorem zeroing_bumps : Bumps (zeroing bumpLibc) fun c => c.2.1 where
  alloc_le := by
    intro n c
    have h := bump_bumps.alloc_le n c.2
    unfold zeroing bumpLibc
    dsimp only
    rcases hb : bump.mem_alloc n c.2 with ⟨_ | a, g⟩ <;> rw [hb] at h <;> exact h
  alloc_none := by
    intro n c h
    refine bump_bumps.alloc_none (n := n) (c := c.2) ?_
    unfold zeroing bumpLibc at h
    dsimp only at h
    rcases hb : bump.mem_alloc n c.2 with ⟨_ | a, g⟩
    · rfl
    · rw [hb] at h
      exact absurd h (by simp)
  free_le := fun _ _ _ => Nat.le_refl _

theorem zeroing_aligned : Aligned lp64 (zeroing bumpLibc) fun c => BumpHeapOk c.2 where
  align := by
    intro n c a c' hn hg h
    unfold zeroing bumpLibc at h
    dsimp only at h
    rcases hb : bump.mem_alloc n c.2 with ⟨_ | b, g⟩ <;> rw [hb] at h
    · exact absurd (congrArg Prod.fst h) (by simp)
    · obtain rfl : b = a := by simpa using congrArg Prod.fst h
      exact bump_aligned.align hn hg.bump hb

/-- The fiber pool of `start`: 32 structs of 320 bytes a slab, no cap. -/
structure Uncapped {σ κ : Type} (s : Reactor lp64 (Nat × List Region) σ κ) : Prop where
  size : s.fibers.slab_memory_size = 10240
  cap : s.fibers.max_slabs = 0

theorem start_uncapped {r : Reactor lp64 (Nat × List Region) (Nat × Nat) Epoll}
    (h : start = some r) : Uncapped r ∧ r.libc = (64, []) := by
  unfold start cfiber_reactor_create at h
  split at h
  · exact absurd h (by simp)
  · rename_i ms hinit
    obtain ⟨hrep, -, hbs, hper, hmax, -⟩ := cfiber_multislab_init_ext_spec hinit
    obtain rfl := Option.some.inj h
    exact ⟨⟨by rw [hrep.config.size_eq, hbs, hper]; rfl, hmax⟩, rfl⟩

/-- While the address space lasts, every spawn succeeds. -/
theorem Uncapped.spawn {κ : Type} {s : Reactor lp64 (Nat × List Region) (Nat × Nat) κ}
    {l : List Nat} (hu : Uncapped s) (hp : Pool Prod.snd BumpHeapOk s l)
    (hroom : s.libc.1 + 10368 < 2 ^ 63) :
    ∃ f gen s', spawn_locked bumpLibc roomyStacks s = (some ⟨some f, gen⟩, s') ∧ Uncapped s' ∧
      s'.libc.1 ≤ s.libc.1 + 10368 := by
  obtain ⟨as, fs, hrep⟩ := hp.rep
  have hown : Own (fun x : FiberMem × Nat × List Region => x.2.2) s.fibers (s.mem, s.libc) :=
    ⟨hp.own.perm, hp.own.apart, hp.own.fits⟩
  have hsize : room s.fibers = 10368 := by
    unfold room
    rw [hu.size]
  obtain ⟨f, ms, ⟨m, c⟩, heq, hle, hA⟩ := zeroing_bumps.alloc_some (zeroing_honest bumpLibc_ok)
    zeroing_aligned hrep hown hp.sound hu.cap (by rw [hsize]; exact hroom)
  rw [hsize] at hle
  obtain ⟨s₁, hobtain, hfibers, hlibc⟩ : ∃ s₁, fiber_obtain bumpLibc s = (some f, s₁) ∧
      s₁.fibers = ms ∧ s₁.libc = c := by
    unfold fiber_obtain
    rw [heq]
    exact ⟨_, rfl, rfl, rfl⟩
  refine ⟨f, _, _, by rw [spawn_locked_eq roomyStacks hobtain rfl]; exact if_neg (by simp),
    ?_, ?_⟩
  · rw [fiber_start_eq]
    exact ⟨by rw [← hu.size, ← hA.config.slab_memory_size, ← hfibers]; rfl,
      by rw [← hu.cap, ← hA.config.max_slabs, ← hfibers]; rfl⟩
  · rw [fiber_start_eq]
    show s₁.libc.1 ≤ _
    rw [hlibc]
    exact hle

/-- The host spawns `k` fibers. -/
theorem start_spawns {r : Reactor lp64 (Nat × List Region) (Nat × Nat) Epoll} (hr : start = some r)
    (k : Nat) (hk : k ≤ 2 ^ 31) :
    ∃ S, exec (step bumpLibc roomyStacks epoll) (boot r) (List.replicate k .spawn) = some S ∧
      S.pc = .host ∧ S.alive.length = k ∧ Uncapped S.r ∧ S.r.libc.1 ≤ 64 + 10368 * k := by
  obtain ⟨hu, hlibc⟩ := start_uncapped hr
  induction k with
  | zero => exact ⟨boot r, rfl, rfl, rfl, hu, by show r.libc.1 ≤ _; rw [hlibc]⟩
  | succ k ih =>
      obtain ⟨S, hrun, hpc, hlen, hS, hle⟩ := ih (by omega)
      obtain ⟨q, hok⟩ := exec_ok bumpLibc_ok (boot_ok (start_fresh hr)) hrun
      -- the slabs so far, and one more, are far from the end of the lower half
      obtain ⟨f, gen, s', heq, hu', hle'⟩ := hS.spawn hok.pool (by omega)
      refine ⟨spawned S (some ⟨some f, gen⟩, s'), ?_, hpc, ?_, hu', ?_⟩
      · rw [List.replicate_succ', exec_snoc]
        exact ⟨S, hrun, by simp only [step, hpc, heq]⟩
      · show (f :: S.alive).length = k + 1
        rw [List.length_cons, hlen]
      · calc s'.libc.1 ≤ S.r.libc.1 + 10368 := hle'
          _ ≤ 64 + 10368 * k + 10368 := Nat.add_le_add_right hle 10368
          _ = 64 + 10368 * (k + 1) := by rw [Nat.mul_succ, Nat.add_assoc]

/-- **The books break at `2 ^ 31` fibers**: that many spawns all succeed, `active` has overflowed, and
`cfiber_reactor_run` returns 0 at once with all of them on the ready queue. -/
theorem active_overflows : ∃ r as S S', start = some r ∧
    exec (step bumpLibc roomyStacks epoll) (boot r) as = some S ∧ busy S = 2 ^ 31 ∧ ¬ ReactorOk S ∧
    exec (step bumpLibc roomyStacks epoll) S [.run, .turn] = some S' ∧ S'.ret = some (.ran true) ∧
    S'.r = S.r := by
  have hsome : start.isSome = true := by decide +kernel
  obtain ⟨r, hr⟩ := Option.isSome_iff_exists.mp hsome
  obtain ⟨S, hrun, hpc, hlen, -, -⟩ := start_spawns hr (2 ^ 31) (Nat.le_refl _)
  obtain ⟨q, hok⟩ := exec_ok bumpLibc_ok (boot_ok (start_fresh hr)) hrun
  have hctl := hok.control
  rw [hpc] at hctl
  have hbusy : busy S = 2 ^ 31 := (hok.busy_alive hctl.2).trans hlen
  have hactive : S.r.active = Int32.ofInt (2 ^ 31) := by
    rw [hok.core.roster.active, ← busy_eq, hbusy]
    rfl
  refine ⟨r, _, S, { S with pc := .host, ret := some (.ran true) }, hr, hrun, hbusy, ?_, ?_, rfl, rfl⟩
  · intro hbooks
    have hcount := hbooks.active
    have hint := S.r.active.toInt_lt
    rw [← busy_eq, hbusy] at hcount
    omega
  · refine exec_cons.mpr ⟨{ S with pc := .head, ret := none }, by simp only [step, hpc], ?_⟩
    -- the smallest `int`
    have hneg : ¬ S.r.active > 0 := by
      rw [hactive]
      decide
    refine exec_cons.mpr ⟨_, ?_, rfl⟩
    simp only [step, turn, if_neg hneg]

end CFiber.Ev
