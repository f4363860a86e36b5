/-
  CFiber.Ev.StackSize — the stack size a reactor is created with.

  `cfiber_reactor_create` rounds `stack_size` up to a page, the pool and the stack constructor each
  add a guard page.  Only the last of the three looks for an overflow.  `Roomy` is what the fibers'
  stacks owe to the configuration.

  Main results:

    • `max_stack_size_ge`, `max_stack_size_dvd` — the rounded size, where the rounding does not wrap;
    • `exec_sized`      — every stack of a run is a whole one of that size;
    • `stack_size_iff`  — a fiber's stack is as it was asked for exactly if it does not wrap.
-/
import CFiber.Base.Masks
import CFiber.Ev.Teardown

namespace CFiber.Ev

open CFiber.Base CFiber.Memory CFiber.Stacks

variable {T : Target} {γ κ δ ν : Type}

/-! ## §1. The code. -/

/-- `cfiber_reactor_config_t`. -/
structure ReactorConfig where
  stack_size : Nat
  stack_cache : Nat
  deriving DecidableEq, Repr

/-- `maxs`: the configured size rounded up to a page, one page at least. -/
def max_stack_size (T : Target) (page : Nat) (config : ReactorConfig) : Nat :=
  let maxs := T.wrap (config.stack_size + page - 1) &&& (2 ^ T.WORD_BITS - 1 - (page - 1))
  if maxs < page then page else maxs

/-- `cfiber_reactor_create`, with its configuration and its stack pool.  `page` is the system's
page size, zero if it cannot be queried; `calls` says whether the allocations and the system calls
before the pool succeed. -/
def cfiber_reactor_create_config (T : Target) (M : Mmu ν) (page : Nat) (calls : Bool)
    (heap : Bool × Bool) (config : ReactorConfig) (sizeof_fiber : Nat) (m : FiberMem) (c : γ)
    (p : Proc ν) (k : κ) (now : UInt64) :
    Option (Reactor T γ (GrowableStackAllocator × Proc ν) κ) × Proc ν :=
  if page = 0 ∨ config.stack_size = 0 then (none, { p with errno := .EINVAL })
  else if !calls then (none, p)
  else
    match cfiber_growable_stack_allocator_create T M page heap
        { max_stack_size := max_stack_size T page config
          cache_capacity := if config.stack_cache ≠ 0 then config.stack_cache else 64
          initial_cached := 0 } p with
    | (none, p) => (none, p)
    | (some alloc, p) => (cfiber_reactor_create T sizeof_fiber m c (alloc, p) k now, p)

/-! ## §2. The rounded size. -/

variable {config : ReactorConfig} {page k : Nat}

/-- **The rounded size holds the configured one**, where the rounding does not wrap. -/
theorem max_stack_size_ge (hk : k ≤ T.WORD_BITS)
    (h : config.stack_size ≤ 2 ^ T.WORD_BITS - 2 ^ k) :
    config.stack_size ≤ max_stack_size T (2 ^ k) config := by
  have hpos := Nat.two_pow_pos k
  have hpow : 2 ^ k ≤ 2 ^ T.WORD_BITS := Nat.pow_le_pow_right (by omega) hk
  have hsum : config.stack_size + 2 ^ k - 1 < 2 ^ T.WORD_BITS := by omega
  have hup := le_round_up hk hsum
  unfold max_stack_size
  unfold clear_low at hup
  rw [T.wrap_of_lt hsum]
  dsimp only
  split
  · omega
  · exact hup

theorem max_stack_size_dvd (hk : k ≤ T.WORD_BITS) : 2 ^ k ∣ max_stack_size T (2 ^ k) config := by
  have hlt : T.wrap (config.stack_size + 2 ^ k - 1) < 2 ^ T.WORD_BITS :=
    Nat.mod_lt _ (Nat.two_pow_pos _)
  have hdvd := clear_low_dvd hk hlt
  unfold max_stack_size
  unfold clear_low at hdvd
  dsimp only
  split
  · exact Nat.dvd_refl _
  · exact hdvd

/-! ## §3. The size during a run. -/

variable {L : Libc γ} {M : Mmu ν} {K : Kernel κ δ}
variable {out : γ → List Region} {good : γ → Prop}
variable {Mapped : ν → Region → Prop} {sane : ν → Prop}
variable {S S' : Sys T γ (GrowableStackAllocator × Proc ν) κ} {as : List (Action δ)}
variable {r : Reactor T γ (GrowableStackAllocator × Proc ν) κ} {p p' : Proc ν}

/-- No step changes the size the pool makes its stacks of. -/
theorem Does.max_stack_size {a : Action δ} {m : Move} {q q' : List Nat}
    (hd : Does (growable T M page) K out good S a S' m q q') :
    S'.r.stack_pool.1.max_stack_size = S.r.stack_pool.1.max_stack_size := by
  have hmoved := hd.moved
  have hpool := hmoved.stack_pool
  have halloc : (cfiber_growable_stack_alloc T M page S.r.stack_pool.1
      S.r.stack_pool.2).2.1.max_stack_size = S.r.stack_pool.1.max_stack_size :=
    cfiber_growable_stack_alloc_max rfl
  cases m with
  | spawn f gen stack =>
      rcases hc : cfiber_growable_stack_alloc T M page S.r.stack_pool.1 S.r.stack_pool.2
        with ⟨stack', sp⟩
      have hsp : (stack', sp) = (stack, S'.r.stack_pool) := hc.symm.trans hpool.1
      obtain ⟨-, rfl⟩ := Prod.mk.inj hsp
      rw [hc] at halloc
      exact halloc
  | reap f =>
      have hp : S'.r.stack_pool = (cfiber_growable_stack_release T M page S.r.stack_pool.1
          (S.r.mem.stack f) S.r.stack_pool.2).2 := (hmoved.reaped f rfl).2
      rw [hp]
      exact cfiber_growable_stack_release_max rfl
  | quiet =>
      rcases hpool with hkeep | ⟨-, hp⟩
      · rw [hkeep]
      · rw [hp]
        exact halloc
  | _ =>
      have hkeep : S'.r.stack_pool = S.r.stack_pool := hpool
      rw [hkeep]

/-- The stacks outstanding are those of the live fibers, and of the size the pool makes. -/
def Sized (T : Target) (Mapped : ν → Region → Prop) (sane : ν → Prop) (page maxs : Nat)
    (S : Sys T γ (GrowableStackAllocator × Proc ν) κ) : Prop :=
  Stocked T Mapped sane page S ∧ S.r.stack_pool.1.max_stack_size = maxs

/-- **Every run** keeps the pool sized. -/
theorem exec_sized (HL : LibcOk T L out good) (HM : MmuOk T M Mapped sane) {maxs : Nat}
    {q : List Nat} (hok : Ok out good S q) (hsz : Sized T Mapped sane page maxs S)
    (h : exec (step L (growable T M page) K) S as = some S') :
    (∃ q', Ok out good S' q') ∧ Sized T Mapped sane page maxs S' := by
  apply exec_inv (fun S => (∃ q, Ok out good S q) ∧ Sized T Mapped sane page maxs S) _
    ⟨⟨q, hok⟩, hsz⟩ h
  rintro s a s' ⟨⟨q, hok⟩, hst, hmax⟩ hs
  obtain ⟨m, q', hdoes⟩ := step_does HL hok hs
  exact ⟨⟨q', hdoes.ok⟩, hst.step HM hok hdoes, hdoes.max_stack_size.trans hmax⟩

/-- **A reactor that was created** is sized. -/
theorem create_sized (HM : MmuOk T M Mapped sane) {calls : Bool} {heap : Bool × Bool}
    {sizeof_fiber : Nat} {m : FiberMem} {c : γ} {k : κ} {now : UInt64}
    (hcache : config.stack_cache < 2 ^ T.WORD_BITS) (hm : ∀ b, m.state b = .FB_FREE)
    (hg : good c) (ho : out c = []) (hsane : sane p.env) (hmade : p.made = [])
    (hcreate : cfiber_reactor_create_config T M page calls heap config sizeof_fiber m c p k now =
      (some r, p')) :
    Fresh T out good r ∧ Sized T Mapped sane page (max_stack_size T page config) (boot r) := by
  have hcap : (if config.stack_cache ≠ 0 then config.stack_cache else 64) < 2 ^ T.WORD_BITS := by
    have hword : 2 ^ 32 ≤ 2 ^ T.WORD_BITS := by
      apply Nat.pow_le_pow_right (by omega)
      rcases T.word_bits with h | h <;> omega
    split_ifs
    · exact hcache
    · omega
  unfold cfiber_reactor_create_config at hcreate
  split at hcreate
  · exact absurd (congrArg Prod.fst hcreate) (by simp)
  split at hcreate
  · exact absurd (congrArg Prod.fst hcreate) (by simp)
  · rcases hpool : cfiber_growable_stack_allocator_create T M page heap _ p with ⟨_ | alloc, p₁⟩
    · rw [hpool] at hcreate
      exact absurd (congrArg Prod.fst hcreate) (by simp)
    · rw [hpool] at hcreate
      obtain ⟨hr, -⟩ := Prod.mk.inj hcreate
      refine ⟨⟨sizeof_fiber, m, c, (alloc, p₁), k, now, hr, hm, hg, ho⟩, ?_⟩
      have hsp : r.stack_pool = (alloc, p₁) := by
        unfold cfiber_reactor_create at hr
        split at hr
        · exact absurd hr (by simp)
        · obtain rfl := Option.some.inj hr
          rfl
      rcases PoolOk.create HM hsane hmade hcap hpool with ⟨hnone, -⟩ | ⟨alloc', hsome, hok, hmax⟩
      · exact absurd hnone (by simp)
      · obtain rfl := Option.some.inj hsome
        refine ⟨?_, ?_⟩
        · show PoolOk T Mapped sane page r.stack_pool.1 [] r.stack_pool.2
          rw [hsp]
          exact hok
        · show r.stack_pool.1.max_stack_size = _
          rw [hsp]
          exact hmax

/-! ## §4. The promise. -/

/-- **What a stack owes** to the configuration: `len` bytes from `base` on are enough, in whole
pages, and they lie in one mapping, between its guard page and its end. -/
structure Roomy (T : Target) (page : Nat) (config : ReactorConfig) (p : Proc ν) (base len : Nat) :
    Prop where
  size : config.stack_size ≤ len
  pages : page ∣ len
  mapping : ∃ m ∈ p.made, m.mapped = true ∧ m.guard = page ∧ base = m.base + m.guard ∧
    base + len = m.base + m.size ∧ m.base + m.size < 2 ^ T.WORD_BITS

/-- **A stack that is outstanding** is roomy exactly if the rounding did not wrap. -/
theorem roomy_iff {p : Proc ν} {alloc : GrowableStackAllocator} {l : List Stack}
    {stack : Stack} (h : PoolOk T Mapped sane (2 ^ k) alloc l p)
    (hmax : alloc.max_stack_size = max_stack_size T (2 ^ k) config) (hs : stack ∈ l) :
    Roomy T (2 ^ k) config p stack.usable_base (cfiber_stack_usable_size T stack) ↔
      config.stack_size ≤ 2 ^ T.WORD_BITS - 2 ^ k := by
  have hfront : PoolOk T Mapped sane (2 ^ k) alloc (stack :: l.erase stack) p :=
    h.perm (List.perm_cons_erase hs)
  obtain ⟨husable, m, hm, hmapped, -, hguard, hbase, -, -, hsize⟩ := hfront.handed
  have hlive : m ∈ p.live := List.mem_filter.mpr ⟨hm, hmapped⟩
  have hfit := (h.held.proc.fit m hlive).2.2
  rw [husable]
  constructor
  · -- a mapping holds the size and a page
    rintro ⟨hle, -, -⟩
    omega
  · intro hle
    have hk : k ≤ T.WORD_BITS := by
      by_contra hlt
      have hpow : 2 ^ T.WORD_BITS ≤ 2 ^ k := Nat.pow_le_pow_right (by omega) (by omega)
      omega
    rw [hmax] at hsize ⊢
    refine ⟨max_stack_size_ge hk hle, max_stack_size_dvd hk, m, hm, hmapped, hguard, hbase, ?_,
      hfit⟩
    rw [hbase]
    omega

/-- A successful spawn gives the fiber the usable part of the stack it got. -/
theorem spawn_locked_stack {P : StackPool (GrowableStackAllocator × Proc ν)} {h : Handle}
    {s s' : Reactor T γ (GrowableStackAllocator × Proc ν) κ}
    (heq : spawn_locked L P s = (some h, s')) :
    ∃ f, h.f = some f ∧ s'.mem.fiber_stack f = (s'.mem.stack f).usable_base ∧
      s'.mem.fiber_stack_size f = cfiber_stack_usable_size T (s'.mem.stack f) := by
  unfold spawn_locked at heq
  split at heq
  · exact absurd (congrArg Prod.fst heq) (by simp)
  · rename_i f s₁ hf
    dsimp only at heq
    split at heq
    · exact absurd (congrArg Prod.fst heq) (by simp)
    · rw [fiber_start_eq] at heq
      obtain ⟨hh, rfl⟩ := Prod.mk.inj heq
      obtain rfl := Option.some.inj hh
      refine ⟨f, rfl, ?_, ?_⟩
      · exact Function.update_self _ _ _
      · exact Function.update_self _ _ _

/-- The stack of a fiber just spawned joins those outstanding. -/
theorem Stocked.spawn_locked (HL : LibcOk T L out good) (HM : MmuOk T M Mapped sane)
    {q : List Nat} (h : Stocked T Mapped sane page S) (hok : Ok out good S q) {hd : Handle}
    {s' : Reactor T γ (GrowableStackAllocator × Proc ν) κ} {f : Nat}
    (heq : spawn_locked L (growable T M page) S.r = (some hd, s')) (hf : hd.f = some f) :
    s'.stack_pool.1.max_stack_size = S.r.stack_pool.1.max_stack_size ∧
      PoolOk T Mapped sane page s'.stack_pool.1 (s'.mem.stack f :: S.alive.map S.r.mem.stack)
        s'.stack_pool.2 := by
  rcases spawn_locked_spec HL (growable T M page) hok.core hok.pool with
    ⟨s₁, hnone, -⟩ | ⟨g, s₁, hsome, hspawns⟩
  · rw [heq] at hnone
    exact absurd (congrArg Prod.fst hnone) (by simp)
  · rw [heq] at hsome
    obtain ⟨hh, rfl⟩ := Prod.mk.inj hsome
    obtain rfl := Option.some.inj hh
    obtain rfl : g = f := Option.some.inj hf
    have hstack : s'.mem.stack g = ((growable T M page).cfiber_growable_stack_alloc
        S.r.stack_pool).1 := congrArg FiberView.stack hspawns.new
    rw [hstack, hspawns.stack_pool]
    refine ⟨cfiber_growable_stack_alloc_max rfl, ?_⟩
    rcases PoolOk.take HM h rfl with ⟨hnull, -, -⟩ | hnew
    · exact absurd (congrArg Stack.mem_base hnull) hspawns.stack
    · exact hnew

/-- **The configured stack size.**  In every state a run reaches, the stack of a live fiber, and of
one spawned next, is as it was asked for exactly if rounding the size up to a page does not wrap. -/
theorem stack_size_iff (HL : LibcOk T L out good) (HM : MmuOk T M Mapped sane) {calls : Bool}
    {heap : Bool × Bool} {sizeof_fiber : Nat} {m : FiberMem} {c : γ} {v : κ} {now : UInt64}
    (hcache : config.stack_cache < 2 ^ T.WORD_BITS) (hm : ∀ b, m.state b = .FB_FREE)
    (hg : good c) (ho : out c = []) (hsane : sane p.env) (hmade : p.made = [])
    (hcreate : cfiber_reactor_create_config T M (2 ^ k) calls heap config sizeof_fiber m c p v now =
      (some r, p'))
    (hrun : exec (step L (growable T M (2 ^ k)) K) (boot r) as = some S) :
    (∀ f, S.r.mem.state f ≠ .FB_FREE →
      (Roomy T (2 ^ k) config S.r.stack_pool.2 (S.r.mem.stack f).usable_base
          (cfiber_stack_usable_size T (S.r.mem.stack f)) ↔
        config.stack_size ≤ 2 ^ T.WORD_BITS - 2 ^ k)) ∧
    (∀ h s', spawn_locked L (growable T M (2 ^ k)) S.r = (some h, s') → ∃ f, h.f = some f ∧
      (Roomy T (2 ^ k) config s'.stack_pool.2 (s'.mem.fiber_stack f) (s'.mem.fiber_stack_size f) ↔
        config.stack_size ≤ 2 ^ T.WORD_BITS - 2 ^ k)) := by
  obtain ⟨hfresh, hsized⟩ := create_sized HM hcache hm hg ho hsane hmade hcreate
  obtain ⟨⟨q, hok⟩, hst, hmax⟩ := exec_sized HL HM (boot_ok hfresh) hsized hrun
  constructor
  · intro f hf
    apply roomy_iff hst hmax
    exact List.mem_map_of_mem ((hok.core.roster.live f).mpr hf)
  · intro h s' hspawn
    obtain ⟨f, hf, hbase, hsize⟩ := spawn_locked_stack hspawn
    obtain ⟨halloc, hpool⟩ := hst.spawn_locked HL HM hok hspawn hf
    refine ⟨f, hf, ?_⟩
    rw [hbase, hsize]
    apply roomy_iff hpool
    · exact halloc.trans hmax
    · exact List.mem_cons_self

/-! ## §5. Two sizes on pages of 4096 bytes. -/

/-- A reactor asked for stacks of `n` bytes. -/
def asked (n : Nat) : Option (Reactor lp64 (Nat × List Region)
    (GrowableStackAllocator × Proc Arena) Epoll) × Proc Arena :=
  cfiber_reactor_create_config lp64 arena (2 ^ 12) true (true, true) ⟨n, 0⟩ 320 blank (64, [])
    ⟨⟨4096, [], []⟩, .EINVAL, []⟩ ⟨[(3, 30), (4, 40)], []⟩ 1000

theorem bump_empty : BumpHeapOk (64, []) :=
  ⟨⟨rfl, fun _ h => absurd h List.not_mem_nil⟩, fun _ h => absurd h List.not_mem_nil, List.nodup_nil⟩

theorem stack_size_iff_epoll : ∃ r p S f, asked 60000 = (some r, p) ∧
    exec (step bumpLibc (growable lp64 arena (2 ^ 12)) epoll) (boot r) [.spawn, .spawn, .run] =
      some S ∧ S.r.ready_head = some f ∧
    Roomy lp64 (2 ^ 12) ⟨60000, 0⟩ S.r.stack_pool.2 (S.r.mem.stack f).usable_base
      (cfiber_stack_usable_size lp64 (S.r.mem.stack f)) := by
  have hsome : ((asked 60000).1.bind fun r =>
      (exec (step bumpLibc (growable lp64 arena (2 ^ 12)) epoll) (boot r)
        [.spawn, .spawn, .run]).bind fun S => S.r.ready_head.map fun f =>
          S.r.mem.state f) = some .FB_READY := by decide +kernel
  obtain ⟨r, hr, hsome⟩ := Option.bind_eq_some_iff.mp hsome
  obtain ⟨S, hrun, hsome⟩ := Option.bind_eq_some_iff.mp hsome
  obtain ⟨f, hf, hstate⟩ := Option.map_eq_some_iff.mp hsome
  have hcreate : asked 60000 = (some r, (asked 60000).2) := Prod.ext hr rfl
  refine ⟨r, (asked 60000).2, S, f, hcreate, hrun, hf, ?_⟩
  exact ((stack_size_iff bumpLibc_ok arena_ok (by decide) (fun _ => rfl) bump_empty rfl
    ⟨by decide, fun _ h => absurd h List.not_mem_nil⟩ rfl hcreate hrun).1 f
      (by rw [hstate]; decide)).mpr (by decide)

/-- **The largest `stack_size`**: the reactor is made, the fiber is spawned, and its stack is one
page. -/
theorem stack_size_wraps : ∃ r p S f, asked (2 ^ 64 - 1) = (some r, p) ∧
    exec (step bumpLibc (growable lp64 arena (2 ^ 12)) epoll) (boot r) [.spawn] = some S ∧
    S.r.ready_head = some f ∧ S.r.mem.fiber_stack_size f = 4096 ∧
    ¬ Roomy lp64 (2 ^ 12) ⟨2 ^ 64 - 1, 0⟩ S.r.stack_pool.2 (S.r.mem.fiber_stack f)
      (S.r.mem.fiber_stack_size f) := by
  have hsome : ((asked (2 ^ 64 - 1)).1.bind fun r =>
      (exec (step bumpLibc (growable lp64 arena (2 ^ 12)) epoll) (boot r) [.spawn]).bind fun S =>
        S.r.ready_head.map fun f => S.r.mem.fiber_stack_size f) = some 4096 := by decide +kernel
  obtain ⟨r, hr, hsome⟩ := Option.bind_eq_some_iff.mp hsome
  obtain ⟨S, hrun, hsome⟩ := Option.bind_eq_some_iff.mp hsome
  obtain ⟨f, hf, hsize⟩ := Option.map_eq_some_iff.mp hsome
  refine ⟨r, (asked (2 ^ 64 - 1)).2, S, f, Prod.ext hr rfl, hrun, hf, hsize, ?_⟩
  intro hroomy
  have hle := hroomy.size
  rw [hsize] at hle
  exact absurd hle (by decide)

end CFiber.Ev
