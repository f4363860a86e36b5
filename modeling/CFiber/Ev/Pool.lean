/-
  CFiber.Ev.Pool — the fiber structs: pool, spawn and recycling (`reactor.c`, "Fiber-struct pool",
  `spawn_locked`, `cfiber_reactor_create`).

  Fiber structs are blocks of a multislab over a zeroing backing allocator.  `Pool` says that the
  live blocks are the live fibers, and that the generation of every block counts how often it went
  back to the pool:

    • `spawn_locked_spec` — a free block becomes a fiber, or the fibers are as they were;
    • `reap_spec`         — a completed fiber's block goes back.

  No memory of an old block is touched when the pool grows (`alloc_zeroing`), and no slab is ever
  given back (`Released.dom_eq_of_max`).
-/
import CFiber.Ev.Calls
import CFiber.Memory.MultislabRelease

namespace CFiber.Ev

open CFiber.Base CFiber.Memory

variable {T : Target} {γ σ κ δ : Type}

/-! ## §1. The functions. -/

/-- `zeroing_alloc` / `zeroing_free`: `calloc` zeroes the structs in the region it answers. -/
def zeroing (L : Libc γ) : Backing (FiberMem × γ) where
  mem_alloc size c :=
    match L.calloc size c.2 with
    | (none, g) => (none, c.1, g)
    | (some a, g) => (some a, c.1.wipe fun p => decide (a ≤ p) && decide (p < a + size), g)
  mem_free ptr _ c := (c.1, L.free ptr c.2)

def fiber_obtain (L : Libc γ) (s : Reactor T γ σ κ) : Option Nat × Reactor T γ σ κ :=
  match cfiber_multislab_alloc (zeroing L) s.fibers (s.mem, s.libc) with
  | (none, ms, m, c) => (none, { s with fibers := ms, mem := m, libc := c })
  | (some f, ms, m, c) =>
    let s := { s with fibers := ms, mem := m, libc := c }
    -- the generation outlives the wipe
    let gen := s.mem.generation f
    let s := { s with mem := s.mem.wipe fun p => p == f }
    (some f,
      { s with mem := { s.mem with generation := Function.update s.mem.generation f gen } })

/-- Return a struct to the pool without touching its stack. -/
def fiber_repool (L : Libc γ) (s : Reactor T γ σ κ) (f : Nat) : Reactor T γ σ κ :=
  -- invalidate outstanding handles
  let s := { s with
    mem := { s.mem with generation := Function.update s.mem.generation f (s.mem.generation f + 1) } }
  let s := { s with mem := { s.mem with state := Function.update s.mem.state f .FB_FREE } }
  let s := { s with repooled := Function.update s.repooled f (s.repooled f + 1) }
  match cfiber_multislab_release (zeroing L) s.fibers f (s.mem, s.libc) with
  | (ms, m, c) => { s with fibers := ms, mem := m, libc := c }

def fiber_recycle (L : Libc γ) (P : StackPool σ) (K : Kernel κ δ) (s : Reactor T γ σ κ) (f : Nat) :
    Reactor T γ σ κ :=
  -- a registration left by the last wait
  let s := detach_fd K s f
  let s := live_unlink s f
  let s := { s with
    stack_pool := P.cfiber_growable_stack_release (s.mem.stack f) s.stack_pool }
  fiber_repool L s f

/-- The loop's `if (s->zombie)` after a fiber switched back. -/
def reap (L : Libc γ) (P : StackPool σ) (K : Kernel κ δ) (s : Reactor T γ σ κ) : Reactor T γ σ κ :=
  match s.zombie with
  | none => s
  | some f => { fiber_recycle L P K s f with zombie := none }

/-- `cfiber_reactor_handle_t`. -/
structure Handle where
  f : Option Nat
  gen : UInt64
  deriving DecidableEq, Repr

/-- The fresh struct is filled in, linked and queued. -/
def fiber_start (s : Reactor T γ σ κ) (f : Nat) : Reactor T γ σ κ :=
  let s := { s with
    mem := { s.mem with
      fiber_stack := Function.update s.mem.fiber_stack f (s.mem.stack f).usable_base
      fiber_stack_size :=
        Function.update s.mem.fiber_stack_size f (cfiber_stack_usable_size T (s.mem.stack f))
      reg_fd := Function.update s.mem.reg_fd f (-1)
      wait_fd := Function.update s.mem.wait_fd f (-1)
      timer_i := Function.update s.mem.timer_i f none
      ctx := Function.update s.mem.ctx f .entry } }
  let s := live_link s f
  let s := enqueue s f
  { s with active := s.active + 1 }

/-- `none` is the `false` return; the handle is what `out` receives. -/
def spawn_locked (L : Libc γ) (P : StackPool σ) (s : Reactor T γ σ κ) :
    Option Handle × Reactor T γ σ κ :=
  match fiber_obtain L s with
  | (none, s) => (none, s)
  | (some f, s) =>
    let (stack, sp) := P.cfiber_growable_stack_alloc s.stack_pool
    let s := { s with
      stack_pool := sp
      mem := { s.mem with stack := Function.update s.mem.stack f stack } }
    match stack.mem_base with
    | none => (none, fiber_repool L s f)  -- no stack to release
    | some _ =>
      let s := fiber_start s f
      (some ⟨some f, s.mem.generation f⟩, s)

def cfiber_ev_self (s : Reactor T γ σ κ) : Handle :=
  match s.current with
  | none => ⟨none, 0⟩
  | some f => ⟨some f, s.mem.generation f⟩

def DEFAULT_FIBERS_PER_SLAB : UInt32 := 32

def UINT32_MAX : UInt32 := UInt32.ofNat (2 ^ 32 - 1)

/-- `align_up`, for a power of two. -/
def align_up (v align : Nat) : Nat := (v + align - 1) / align * align

/-- `cfiber_reactor_create` once the system calls it makes have succeeded; `sizeof_fiber` is
`sizeof(ev_fiber_t)`, and `m`, `c`, `sp`, `k` are the memory and the environment it starts from. -/
def cfiber_reactor_create (T : Target) (sizeof_fiber : Nat) (m : FiberMem) (c : γ) (sp : σ) (k : κ)
    (now : UInt64) : Option (Reactor T γ σ κ) :=
  match cfiber_multislab_init_ext T (align_up sizeof_fiber T.CACHE_LINE_SIZE)
      DEFAULT_FIBERS_PER_SLAB 0 UINT32_MAX with
  | none => none
  | some ms => some
    { mem := m
      current := none
      zombie := none
      ready_head := none
      ready_tail := none
      live_head := none
      fibers := ms
      heap := fun _ => 0
      heap_len := 0
      heap_cap := 0
      fd_owner := fun _ => none
      fd_owner_cap := 0
      active := 0
      blocked := 0
      libc := c
      stack_pool := sp
      epoll := k
      clock := now
      errno := .other 0
      enqueued := fun _ => 0
      repooled := fun _ => 0 }

/-! ## §2. The libc heap and the zeroing allocator. -/

/-- What libc promises.  `out` lists the regions the fiber pool holds, `good` is the invariant of
the heap's state. -/
structure LibcOk (T : Target) (L : Libc γ) (out : γ → List Region) (good : γ → Prop) : Prop where
  calloc_some : ∀ {n : Nat} {c : γ} {a : Nat} {c' : γ}, 0 < n → good c →
    L.calloc n c = (some a, c') →
    good c' ∧ (out c').Perm ((a, n) :: out c) ∧ a + n < 2 ^ T.WORD_BITS ∧
      ∀ r ∈ out c, Apart (a, n) r
  calloc_none : ∀ {n : Nat} {c c' : γ}, 0 < n → good c → L.calloc n c = (none, c') →
    good c' ∧ (out c').Perm (out c)
  free : ∀ {a n : Nat} {c : γ}, good c → (a, n) ∈ out c →
    good (L.free a c) ∧ (out (L.free a c)).Perm ((out c).erase (a, n))
  realloc : ∀ {n : Nat} {c : γ}, good c →
    good (L.realloc n c).2 ∧ (out (L.realloc n c).2).Perm (out c)

section
variable {L : Libc γ} {out : γ → List Region} {good : γ → Prop}

theorem zeroing_honest (H : LibcOk T L out good) :
    Honest T (zeroing L) (fun c => out c.2) (fun c => good c.2) where
  alloc_some := by
    intro n c a c' hn hg h
    unfold zeroing at h
    dsimp only at h
    rcases hres : L.calloc n c.2 with ⟨_ | b, g⟩
    · rw [hres] at h
      exact absurd (congrArg Prod.fst h) (by simp)
    · rw [hres] at h
      obtain ⟨rfl, rfl⟩ : b = a ∧ _ = c' := by simpa using h
      exact H.calloc_some hn hg hres
  alloc_none := by
    intro n c c' hn hg h
    unfold zeroing at h
    dsimp only at h
    rcases hres : L.calloc n c.2 with ⟨_ | b, g⟩
    · rw [hres] at h
      obtain rfl : _ = c' := congrArg Prod.snd h
      exact H.calloc_none hn hg hres
    · rw [hres] at h
      exact absurd (congrArg Prod.fst h) (by simp)
  free := fun hg hm => H.free hg hm

theorem Reallocs.sound {c c' : γ} (H : LibcOk T L out good) (h : Reallocs L c c') (hg : good c) :
    good c' ∧ (out c').Perm (out c) := by
  induction h with
  | refl => exact ⟨hg, List.Perm.refl _⟩
  | tail _ hstep ih =>
      obtain ⟨n, rfl⟩ := hstep
      obtain ⟨hg', hp'⟩ := H.realloc (n := n) ih.1
      exact ⟨hg', hp'.trans ih.2⟩

/-! ## §3. Growing the pool leaves old blocks alone. -/

/-- Address `p` lies in one of the regions. -/
def Covered (rs : List Region) (p : Nat) : Prop := ∃ r ∈ rs, r.1 ≤ p ∧ p < r.1 + r.2

/-- The memory changed by zeroing outside the regions `rs` only. -/
def ZeroedOff (rs : List Region) (m m' : FiberMem) : Prop :=
  ∀ p, m'.read p = m.read p ∨ (m'.read p = FiberStruct.zero ∧ ¬ Covered rs p)

theorem ZeroedOff.refl (rs : List Region) (m : FiberMem) : ZeroedOff rs m m := fun _ => Or.inl rfl

theorem ZeroedOff.trans {rs : List Region} {m m' m'' : FiberMem} (h : ZeroedOff rs m m')
    (h' : ZeroedOff rs m' m'') : ZeroedOff rs m m'' := by
  intro p
  rcases h' p with hsame | hzero
  · rcases h p with hs | ⟨hz, hc⟩
    · exact Or.inl (hsame.trans hs)
    · exact Or.inr ⟨hsame.trans hz, hc⟩
  · exact Or.inr hzero

theorem ZeroedOff.read {rs : List Region} {m m' : FiberMem} (h : ZeroedOff rs m m') {p : Nat}
    (hp : Covered rs p) : m'.read p = m.read p := by
  rcases h p with hs | ⟨-, hc⟩
  · exact hs
  · exact absurd hp hc

/-- A `calloc` of a region apart from `rs`. -/
theorem zeroedOff_calloc {rs : List Region} {a n : Nat} (m : FiberMem)
    (hap : ∀ r ∈ rs, Apart (a, n) r) :
    ZeroedOff rs m (m.wipe fun p => decide (a ≤ p) && decide (p < a + n)) := by
  intro p
  rw [FiberMem.wipe_read]
  by_cases hin : a ≤ p ∧ p < a + n
  · right
    rw [if_pos (by simpa using hin)]
    refine ⟨rfl, ?_⟩
    rintro ⟨r, hr, hlo, hhi⟩
    have := hap r hr
    simp only [Apart] at this
    omega
  · left
    rw [if_neg (by simpa using hin)]

/-- Growth zeroes memory outside the regions held before, and all of the new slab. -/
theorem multislab_grow_zeroing (H : LibcOk T L out good) {ms : Multislab T} (hc : Config ms)
    {m : FiberMem} {c : γ} (hg : good c) {r : Option Nat} {ms' : Multislab T} {m' : FiberMem}
    {c' : γ} (h : multislab_grow (zeroing L) ms (m, c) = (r, ms', m', c')) :
    ZeroedOff (out c) m m' ∧
      ∀ node, r = some node → ∀ p, ms'.nodes.raw_memory node ≤ p →
        p < ms'.nodes.raw_memory node + ms.slab_memory_size → m'.read p = FiberStruct.zero := by
  have hnode := sizeof_node_pos T
  have hsize := hc.size_pos
  unfold multislab_grow at h
  split_ifs at h with hcap
  · obtain ⟨rfl, -, rfl, -⟩ : none = r ∧ ms = ms' ∧ m = m' ∧ c = c' := by simpa using h
    exact ⟨ZeroedOff.refl _ _, fun _ e => absurd e (by simp)⟩
  rcases h1 : L.calloc (sizeof_node T) c with ⟨_ | node, c₁⟩
  · simp only [zeroing, h1] at h
    obtain ⟨rfl, -, rfl, -⟩ : none = r ∧ ms = ms' ∧ m = m' ∧ c₁ = c' := by simpa using h
    exact ⟨ZeroedOff.refl _ _, fun _ e => absurd e (by simp)⟩
  obtain ⟨hg₁, hp₁, -, hap₁⟩ := H.calloc_some hnode hg h1
  have hz₁ := zeroedOff_calloc m hap₁
  rcases h2 : L.calloc ms.slab_memory_size c₁ with ⟨_ | mem, c₂⟩
  · simp only [zeroing, h1, h2] at h
    obtain ⟨rfl, -, rfl, -⟩ : none = r ∧ ms = ms' ∧ _ = m' ∧ _ = c' := by simpa using h
    exact ⟨hz₁, fun _ e => absurd e (by simp)⟩
  obtain ⟨hg₂, hp₂, -, hap₂⟩ := H.calloc_some hsize hg₁ h2
  -- the second region is apart from everything held before, too
  have hap₂' : ∀ r ∈ out c, Apart (mem, ms.slab_memory_size) r := fun r hr =>
    hap₂ r (hp₁.mem_iff.mpr (List.mem_cons_of_mem _ hr))
  have hz₂ := hz₁.trans (zeroedOff_calloc _ hap₂')
  cases hinit : cfiber_slab_init T ms.block_size mem ms.slab_memory_size with
  | none =>
      simp only [zeroing, h1, h2, hinit] at h
      obtain ⟨rfl, -, rfl, -⟩ : none = r ∧ ms = ms' ∧ _ = m' ∧ _ = c' := by simpa using h
      exact ⟨hz₂, fun _ e => absurd e (by simp)⟩
  | some slab =>
      simp only [zeroing, h1, h2, hinit, list_push_eq] at h
      obtain ⟨rfl, rfl, rfl, -⟩ : some node = r ∧ _ = ms' ∧ _ = m' ∧ _ = c' := by simpa using h
      refine ⟨hz₂, ?_⟩
      intro n hn p hlo hhi
      obtain rfl := Option.some.inj hn
      simp only [Function.update_self] at hlo hhi
      rw [FiberMem.wipe_read, if_pos (by simpa using ⟨hlo, hhi⟩)]

/-- `p` is the address of a block of the pool, live or not. -/
def IsBlock (ms : Multislab T) (p : Nat) : Prop :=
  ∃ n ∈ ms.nodes.dom, ∃ i < ms.blocks_per_slab.toNat, p = ms.block n i

theorem IsBlock.taken {ms : Multislab T} {n i p : Nat} (hhead : ms.active = some n)
    (h : IsBlock (taken ms n i) p) : IsBlock ms p := by
  obtain ⟨m, hm, j, hj, rfl⟩ := h
  rw [taken_dom] at hm
  rw [(taken_config ms n i).blocks_per_slab] at hj
  exact ⟨m, hm, j, hj, taken_block hhead m j⟩

theorem IsBlock.relinked {ms ms' : Multislab T} (hr : Relinked ms ms') {p : Nat} :
    IsBlock ms' p ↔ IsBlock ms p := by
  unfold IsBlock
  rw [hr.dom, hr.config.blocks_per_slab]
  simp only [hr.block]

/-- Every block lies in a region the pool holds. -/
theorem IsBlock.covered {ms : Multislab T} {as fs : List Nat} {c : γ} (h : Rep ms as fs)
    (ho : Own out ms c) {p : Nat} (hp : IsBlock ms p) : Covered (out c) p := by
  obtain ⟨n, hn, i, hi, rfl⟩ := hp
  obtain ⟨hlo, hhi⟩ := (h.slab n hn).block_range h.config hi
  have hpos := h.config.block_pos
  have hreg : (ms.nodes.raw_memory n, ms.slab_memory_size) ∈ regions ms :=
    List.mem_flatMap.mpr ⟨n, hn, List.mem_cons_self⟩
  exact ⟨_, ho.perm.mem_iff.mpr hreg, hlo, by omega⟩

theorem isBlock_of_live {ms : Multislab T} {p : Nat} (h : Live ms p) : IsBlock ms p := by
  obtain ⟨n, hn, i, hi, he, -⟩ := h
  exact ⟨n, hn, i, hi, he⟩

/-- **An allocation** zeroes memory outside the old regions only, and every block that is new to
the pool reads zero. -/
theorem alloc_zeroing (H : LibcOk T L out good) {ms : Multislab T} {as fs : List Nat}
    (h : Rep ms as fs) {m : FiberMem} {c : γ} (ho : Own out ms c) (hg : good c) {r : Option Nat}
    {ms' : Multislab T} {m' : FiberMem} {c' : γ}
    (heq : cfiber_multislab_alloc (zeroing L) ms (m, c) = (r, ms', m', c')) :
    ZeroedOff (out c) m m' ∧
      ∀ p, IsBlock ms' p → IsBlock ms p ∨ m'.read p = FiberStruct.zero := by
  have hlen := h.active_length
  unfold cfiber_multislab_alloc at heq
  rcases alloc_scan_spec as ms fs (ms.nodes.dom.length + 1) h (by omega) with
    ⟨ms₁, fs₁, hscan, hr, h₁⟩ | ⟨ms₁, n, as₁, fs₁, i, hr, h₁, hi, hfree, -, hscan⟩
  · rw [hscan] at heq
    dsimp only at heq
    have hown : Own (fun x : FiberMem × γ => out x.2) ms₁ (m, c) :=
      ⟨(hr.own ho).perm, (hr.own ho).apart, (hr.own ho).fits⟩
    rcases multislab_grow_spec (zeroing_honest H) h₁ hown hg with
      ⟨⟨m₂, c₂⟩, hgrow, -, -, -⟩ |
      ⟨node, mem, slab, ⟨m₂, c₂⟩, hgrow, -, hfresh, hempty, h₂, -, -⟩
    · obtain ⟨hz, -⟩ := multislab_grow_zeroing H h₁.config hg hgrow
      rw [hgrow] at heq
      obtain ⟨-, rfl, rfl, -⟩ : none = r ∧ ms₁ = ms' ∧ m₂ = m' ∧ c₂ = c' := by simpa using heq
      exact ⟨hz, fun p hp => Or.inl ((IsBlock.relinked hr).mp hp)⟩
    · -- a block of the enlarged pool is an old one or lies in the new slab
      obtain ⟨hz, hnew⟩ := multislab_grow_zeroing H h₁.config hg hgrow
      rw [hgrow] at heq
      dsimp only at heq
      have hdom : node ∈ (grown ms₁ node mem slab).nodes.dom := List.mem_cons_self
      have hslab := h₂.slab node hdom
      have hblocks : ∀ p, IsBlock (grown ms₁ node mem slab) p →
          IsBlock ms p ∨ m₂.read p = FiberStruct.zero := by
        rintro p ⟨n, hn, i, hi, rfl⟩
        rcases List.mem_cons.mp hn with rfl | hn
        · right
          obtain ⟨hlo, hhi⟩ := (h₂.slab n hdom).block_range h₂.config hi
          have hpos := h₂.config.block_pos
          have hsame : (grown ms₁ n mem slab).slab_memory_size = ms₁.slab_memory_size := rfl
          rw [hsame] at hhi
          exact hnew n rfl _ hlo (Nat.lt_of_lt_of_le (Nat.lt_add_of_pos_right hpos) hhi)
        · left
          have hne : n ≠ node := fun e => hfresh (e ▸ hn)
          apply (IsBlock.relinked hr).mp
          exact ⟨n, hn, i, hi, by simp [Multislab.block, grown, hne]⟩
      rcases cfiber_slab_alloc_spec hslab.ok with ⟨-, hall⟩ | ⟨j, hj, -, -, halloc⟩
      · -- the new slab is empty, so it has a free block
        have hper := h₂.config.per_pos
        have hused := hall 0 (by rw [hslab.count]; exact hper)
        have hfree : ((grown ms₁ node mem slab).nodes.slab node).used 0 = false := by
          simpa [grown] using hempty 0
        rw [hfree] at hused
        exact absurd hused (by simp)
      · rw [halloc] at heq
        obtain ⟨-, rfl, rfl, -⟩ : some _ = r ∧ _ = ms' ∧ m₂ = m' ∧ c₂ = c' := by simpa using heq
        exact ⟨hz, fun p hp => hblocks p (IsBlock.taken h₂.active.head hp)⟩
  · rw [hscan] at heq
    obtain ⟨-, rfl, rfl, -⟩ : some _ = r ∧ _ = ms' ∧ m = m' ∧ c = c' := by simpa using heq
    refine ⟨ZeroedOff.refl _ _, ?_⟩
    intro p hp
    left
    have hslab : ms₁.nodes.slab n = ms.nodes.slab n := by rw [hr.slab]
    rw [← hslab] at hp
    exact (IsBlock.relinked hr).mp (IsBlock.taken h₁.active.head hp)

/-! ## §4. The pool's invariant. -/

/-- The live blocks of the pool are the live fibers `l`, and generations count repoolings. -/
structure Pool (out : γ → List Region) (good : γ → Prop) (s : Reactor T γ σ κ) (l : List Nat) :
    Prop where
  rep : ∃ as fs, Rep s.fibers as fs
  own : Own out s.fibers s.libc
  sound : good s.libc
  live : ∀ p, Live s.fibers p ↔ p ∈ l
  reserve : s.fibers.max_empty_reserve = UINT32_MAX
  generation : ∀ p, IsBlock s.fibers p → s.mem.generation p = UInt64.ofNat (s.repooled p)
  fresh : ∀ p, ¬ IsBlock s.fibers p → s.repooled p = 0

/-- What leaves the pool alone keeps its invariant. -/
theorem Pool.keep (H : LibcOk T L out good) {s s' : Reactor T γ σ κ} {l : List Nat}
    (h : Pool out good s l) (hk : Kept L s s') (hv : s'.mem.generation = s.mem.generation) :
    Pool out good s' l := by
  obtain ⟨hg, hp⟩ := hk.libc.sound H h.sound
  refine ⟨?rep, ⟨?perm, ?apart, ?fits⟩, hg, ?live, ?reserve, ?generation, ?fresh⟩
  case rep => rw [hk.fibers]; exact h.rep
  case perm => rw [hk.fibers]; exact hp.trans h.own.perm
  case apart => rw [hk.fibers]; exact h.own.apart
  case fits => rw [hk.fibers]; exact h.own.fits
  case live => rw [hk.fibers]; exact h.live
  case reserve => rw [hk.fibers]; exact h.reserve
  case generation => rw [hk.fibers, hk.repooled, hv]; exact h.generation
  case fresh => rw [hk.fibers, hk.repooled]; exact h.fresh

/-- **The generation of a live fiber** counts how often its block was repooled. -/
theorem Pool.gen {s : Reactor T γ σ κ} {l : List Nat} (h : Pool out good s l) {f : Nat}
    (hf : f ∈ l) : s.mem.generation f = UInt64.ofNat (s.repooled f) :=
  h.generation f (isBlock_of_live ((h.live f).mpr hf))

/-- The memory may be rewritten off the live list as long as what is free stays free. -/
theorem Core.reread {s : Reactor T γ σ κ} {l q : List Nat} (h : Core s l q) {m : FiberMem}
    (hsame : ∀ g ∈ l, m.read g = s.mem.read g) (hfree : ∀ g, g ∉ l → m.state g = .FB_FREE)
    (ms : Multislab T) (c : γ) :
    Core { s with fibers := ms, mem := m, libc := c } l q := by
  have hst : m.state = s.mem.state := by
    funext g
    by_cases hg : g ∈ l
    · exact congrArg FiberStruct.state (hsame g hg)
    · rw [hfree g hg]
      by_contra hne
      exact hg ((h.roster.live g).mpr (Ne.symm hne))
  have hparked : ∀ g, m.state g = .FB_PARKED → g ∈ l := by
    intro g hg
    rw [hst] at hg
    exact h.mem_live (by simp [hg])
  have hdead : ∀ i < s.heap_len, m.deadline_ns (s.heap i) = s.mem.deadline_ns (s.heap i) := by
    intro i hi
    have hp := h.timed.parked (s.heap i) ⟨i, hi, rfl⟩
    exact congrArg FiberStruct.deadline_ns (hsame _ (h.mem_live (by simp [hp])))
  refine ⟨?roster, ?links, ⟨?index, ?parked, ?slotted, h.timed.room, h.timed.order.congr ?order⟩,
    ?owners, ⟨?holds, ?cont, ?idle⟩⟩
  case roster =>
    exact h.roster.congr (fun g hg => congrArg FiberStruct.next (hsame g hg)) fun g => by rw [hst]
  case links =>
    exact h.links.congr (fun g hg => congrArg FiberStruct.live_next (hsame g hg))
      fun g hg => congrArg FiberStruct.live_prev (hsame g hg)
  case index =>
    intro i hi
    have hp := h.timed.parked (s.heap i) ⟨i, hi, rfl⟩
    have hl : s.heap i ∈ l := h.mem_live (by simp [hp])
    have := congrArg FiberStruct.timer_i (hsame _ hl)
    exact this.trans (h.timed.index i hi)
  case parked =>
    intro g hg
    show m.state g = _
    rw [hst]
    exact h.timed.parked g hg
  case slotted =>
    intro g hg i hi
    have := congrArg FiberStruct.timer_i (hsame g hg)
    exact h.timed.slotted g hg i (this.symm.trans hi)
  case order => exact fun i hi => congrArg UInt64.toNat (hdead i hi)
  case owners => exact Owners.congr h.owners fun g hg => congrArg FiberStruct.reg_fd (hsame g hg)
  case holds =>
    intro g hg hp
    have hr := hsame g (hparked g hg)
    have h1 : m.park g = s.mem.park g := congrArg FiberStruct.park hr
    have h2 : m.wait_fd g = s.mem.wait_fd g := congrArg FiberStruct.wait_fd hr
    have h3 : m.reg_fd g = s.mem.reg_fd g := congrArg FiberStruct.reg_fd hr
    simp only [h1, h2, h3] at hp ⊢
    apply h.waits.holds g _ hp
    rw [← hst]
    exact hg
  case cont =>
    intro g hg
    have hr := hsame g (hparked g hg)
    have h1 : m.park g = s.mem.park g := congrArg FiberStruct.park hr
    have h2 : m.ctx g = s.mem.ctx g := congrArg FiberStruct.ctx hr
    simp only [h1, h2]
    apply h.waits.cont g
    rw [← hst]
    exact hg
  case idle =>
    intro g hg hne
    have hr := hsame g hg
    have h1 : m.wait_fd g = s.mem.wait_fd g := congrArg FiberStruct.wait_fd hr
    have h2 : m.ctx g = s.mem.ctx g := congrArg FiberStruct.ctx hr
    simp only [h1, h2, hst] at hne ⊢
    exact h.waits.idle g hg hne

/-- **What an allocation does to the memory**: the fibers keep theirs, everything else is free, and a
new block reads generation zero. -/
theorem Pool.alloc_memory (H : LibcOk T L out good) {s : Reactor T γ σ κ} {l q : List Nat}
    (h : Core s l q) (hp : Pool out good s l) {r : Option Nat} {ms : Multislab T} {m : FiberMem}
    {c : γ}
    (heq : cfiber_multislab_alloc (zeroing L) s.fibers (s.mem, s.libc) = (r, ms, m, c)) :
    (∀ g ∈ l, m.read g = s.mem.read g) ∧ (∀ g, g ∉ l → m.state g = .FB_FREE) ∧
      ∀ p, IsBlock ms p → m.generation p = UInt64.ofNat (s.repooled p) := by
  obtain ⟨as, fs, hrep⟩ := hp.rep
  obtain ⟨hz, hblocks⟩ := alloc_zeroing H hrep hp.own hp.sound heq
  have hold : ∀ p, IsBlock s.fibers p → m.read p = s.mem.read p := fun p hb =>
    hz.read (hb.covered hrep hp.own)
  refine ⟨fun g hg => hold g (isBlock_of_live ((hp.live g).mpr hg)), ?_, ?_⟩
  · intro g hg
    rcases hz g with hsame | ⟨hzero, -⟩
    · have hst : m.state g = s.mem.state g := congrArg FiberStruct.state hsame
      rw [hst]
      by_contra hne
      exact hg ((h.roster.live g).mpr hne)
    · exact congrArg FiberStruct.state hzero
  · intro p hb
    by_cases hb' : IsBlock s.fibers p
    · rw [← hp.generation p hb']
      exact congrArg FiberStruct.generation (hold p hb')
    · rw [hp.fresh p hb']
      exact congrArg FiberStruct.generation ((hblocks p hb).resolve_left hb')

/-- **Obtaining a struct.**  The live fibers keep their memory; a struct that is handed out was
free and reads zero but for its generation. -/
theorem fiber_obtain_spec (H : LibcOk T L out good) {s : Reactor T γ σ κ} {l q : List Nat}
    (h : Core s l q) (hp : Pool out good s l) :
    ∃ ms m c, (∀ g ∈ l, m.read g = s.mem.read g) ∧ (∀ g, g ∉ l → m.state g = .FB_FREE) ∧
      (∀ p, IsBlock s.fibers p → IsBlock ms p) ∧ (∀ r ∈ out s.libc, r ∈ out c) ∧
      ((fiber_obtain L s = (none, { s with fibers := ms, mem := m, libc := c }) ∧
          Pool out good { s with fibers := ms, mem := m, libc := c } l) ∨
       ∃ f, fiber_obtain L s = (some f, { s with fibers := ms, mem := m, libc := c }) ∧ f ∉ l ∧
          m.read f = { FiberStruct.zero with generation := UInt64.ofNat (s.repooled f) } ∧
          Pool out good { s with fibers := ms, mem := m, libc := c } (f :: l)) := by
  obtain ⟨as, fs, hrep⟩ := hp.rep
  have hown : Own (fun x : FiberMem × γ => out x.2) s.fibers (s.mem, s.libc) :=
    ⟨hp.own.perm, hp.own.apart, hp.own.fits⟩
  unfold fiber_obtain
  rcases cfiber_multislab_alloc_spec (zeroing_honest H) hrep hown hp.sound with
    ⟨f, ms, ⟨m, c⟩, heq, hg, ho, hrep', hall⟩ | ⟨ms, ⟨m, c⟩, heq, hg, ho, hrep', hrel, -, -, -⟩
  · -- a block: it is wiped, but for its generation
    obtain ⟨hsame, hfree, hgen⟩ := hp.alloc_memory H h heq
    have hfl : f ∉ l := fun hm => hall.fresh ((hp.live f).mpr hm)
    have hfb : IsBlock ms f := hall.inside
    have hmono : ∀ p, IsBlock s.fibers p → IsBlock ms p := by
      rintro p ⟨n, hn, i, hi, rfl⟩
      refine ⟨n, hall.dom_mono n hn, i, ?_, (hall.block_same n hn i).symm⟩
      rw [hall.config.blocks_per_slab]
      exact hi
    -- the field wipe preserves the generation
    have hread : ∀ p, ({ (m.wipe fun p => p == f) with
        generation := Function.update (m.wipe fun p => p == f).generation f (m.generation f) } :
          FiberMem).read p
        = if p = f then { FiberStruct.zero with generation := UInt64.ofNat (s.repooled f) }
          else m.read p := by
      intro p
      by_cases hpf : p = f
      · subst hpf
        simp [FiberMem.read, FiberMem.wipe, hgen p hfb]
      · simp [FiberMem.read, FiberMem.wipe, hpf]
    rw [heq]
    refine ⟨ms, _, c, ?same, ?free, hmono, hall.out_mono,
      Or.inr ⟨f, rfl, hfl, ?read, hrep', ⟨ho.perm, ho.apart, ho.fits⟩, hg, ?live, ?reserve,
      ?generation, ?fresh⟩⟩
    case same =>
      intro g hg'
      have hgf : g ≠ f := fun e => hfl (e ▸ hg')
      rw [hread g, if_neg hgf]
      exact hsame g hg'
    case free =>
      intro g hg'
      have := congrArg FiberStruct.state (hread g)
      by_cases hgf : g = f
      · rw [if_pos hgf] at this
        exact this
      · rw [if_neg hgf] at this
        exact this.trans (hfree g hg')
    case read => rw [hread f, if_pos rfl]
    case live =>
      intro p
      rw [hall.live p, hp.live p, List.mem_cons]
    case reserve =>
      rw [hall.config.max_empty_reserve]
      exact hp.reserve
    case generation =>
      intro p hb
      have := congrArg FiberStruct.generation (hread p)
      by_cases hpf : p = f
      · rw [if_pos hpf] at this
        rw [hpf] at this ⊢
        exact this
      · rw [if_neg hpf] at this
        exact this.trans (hgen p hb)
    case fresh => exact fun p hb => hp.fresh p fun hb' => hb (hmono p hb')
  · -- none was left
    obtain ⟨hsame, hfree, hgen⟩ := hp.alloc_memory H h heq
    rw [heq]
    have hheld : ∀ r ∈ out s.libc, r ∈ out c := by
      intro r hr
      rw [hp.own.perm.mem_iff, ← hrel.regions] at hr
      exact ho.perm.mem_iff.mpr hr
    refine ⟨ms, m, c, hsame, hfree, fun p hb => (IsBlock.relinked hrel).mpr hb, hheld,
      Or.inl ⟨rfl, hrep', ⟨ho.perm, ho.apart, ho.fits⟩, hg, ?_, ?_, hgen, ?_⟩⟩
    · intro p
      rw [hrel.live p]
      exact hp.live p
    · rw [hrel.config.max_empty_reserve]
      exact hp.reserve
    · exact fun p hb => hp.fresh p fun hb' => hb ((IsBlock.relinked hrel).mpr hb')

/-- **Repooling.**  The block leaves the live ones with its generation bumped; no slab is given
back and the allocator's state does not change. -/
theorem fiber_repool_spec (H : LibcOk T L out good) {s : Reactor T γ σ κ} {l : List Nat}
    (hp : Pool out good s l) (hnd : l.Nodup) {f : Nat} (hf : f ∈ l) :
    ∃ ms, fiber_repool L s f =
        { s with
          mem := { s.mem with
            generation := Function.update s.mem.generation f (s.mem.generation f + 1)
            state := Function.update s.mem.state f .FB_FREE }
          repooled := Function.update s.repooled f (s.repooled f + 1)
          fibers := ms } ∧
      (∀ p, IsBlock s.fibers p → IsBlock ms p) ∧
      Pool out good (fiber_repool L s f) (l.erase f) := by
  obtain ⟨as, fs, hrep⟩ := hp.rep
  let m : FiberMem := { s.mem with
    generation := Function.update s.mem.generation f (s.mem.generation f + 1)
    state := Function.update s.mem.state f .FB_FREE }
  have hown : Own (fun x : FiberMem × γ => out x.2) s.fibers (m, s.libc) :=
    ⟨hp.own.perm, hp.own.apart, hp.own.fits⟩
  obtain ⟨ms, c', heq, hg, ho, hrep', hrel⟩ := cfiber_multislab_release_spec (zeroing_honest H)
    hrep hown hp.sound ((hp.live f).mpr hf)
  -- the reserve is the largest there is, so no slab is given back
  obtain ⟨hdom, hc⟩ := hrel.dom_eq_of_max hp.reserve
  subst hc
  have hblk : ∀ p, IsBlock ms p ↔ IsBlock s.fibers p := by
    intro p
    unfold IsBlock
    rw [hdom, hrel.config.blocks_per_slab]
    constructor
    · rintro ⟨n, hn, i, hi, rfl⟩
      exact ⟨n, hn, i, hi, hrel.block_same n (by rw [hdom]; exact hn) i⟩
    · rintro ⟨n, hn, i, hi, rfl⟩
      exact ⟨n, hn, i, hi, (hrel.block_same n (by rw [hdom]; exact hn) i).symm⟩
  have hres : fiber_repool L s f =
      { s with
        mem := m
        repooled := Function.update s.repooled f (s.repooled f + 1)
        fibers := ms } := by
    unfold fiber_repool
    dsimp only
    rw [show cfiber_multislab_release (zeroing L) s.fibers f (_, s.libc) = (ms, m, s.libc) from heq]
  refine ⟨ms, hres, fun p hb => (hblk p).mpr hb, ?_⟩
  rw [hres]
  refine ⟨hrep', ⟨ho.perm, ho.apart, ho.fits⟩, hg, ?live, ?reserve, ?generation, ?fresh⟩
  case live =>
    intro p
    rw [hrel.live p, hp.live p, hnd.mem_erase_iff]
    exact and_comm
  case reserve =>
    rw [hrel.config.max_empty_reserve]
    exact hp.reserve
  case generation =>
    intro p hb
    have hgen := hp.generation p ((hblk p).mp hb)
    by_cases hpf : p = f
    · subst hpf
      show Function.update s.mem.generation p (s.mem.generation p + 1) p
        = UInt64.ofNat (Function.update s.repooled p (s.repooled p + 1) p)
      rw [Function.update_self, Function.update_self, hgen, UInt64.ofNat_add]
      rfl
    · show Function.update s.mem.generation f (s.mem.generation f + 1) p
        = UInt64.ofNat (Function.update s.repooled f (s.repooled f + 1) p)
      rw [Function.update_of_ne hpf, Function.update_of_ne hpf]
      exact hgen
  case fresh =>
    intro p hb
    have hne : p ≠ f := by
      rintro rfl
      exact hb ((hblk p).mpr (isBlock_of_live ((hp.live p).mpr hf)))
    show Function.update s.repooled f (s.repooled f + 1) p = 0
    rw [Function.update_of_ne hne]
    exact hp.fresh p fun hb' => hb ((hblk p).mpr hb')

end

end CFiber.Ev
