/-
  CFiber.Stacks.GrowablePool — the pool of growable stacks (`growable_stack_allocator.c`).

  The pool copies descriptors by value: between the caller and the cache a stack has a descriptor
  in each, and the cache array keeps old descriptors past `cache_count`.  The holders of a stack
  are the cache up to `cache_count` and whoever has it outstanding.  `PoolOk` says that the
  mappings still there are those of the holders, each of one; it is what every call keeps.

  Main results:

    • `PoolOk.create`, `.alloc`, `.release`, `.foreign` — one lemma for each call;
    • `growable_pool_ok`     — every mapping is outstanding, cached or unmapped, in every run;
    • `growable_pool_ok_arena` — such a run, with failures on the way.

  Release build: assertions are off.  `size_t` counters wrap.
-/
import CFiber.Base.Run
import CFiber.Memory.MultislabRun
import CFiber.Stacks.Growable

namespace CFiber.Stacks

open CFiber.Base CFiber.Memory

/-! ## §1. The code. -/

/-- `struct cfiber_growable_stack_allocator`. -/
structure GrowableStackAllocator where
  max_stack_size : Nat
  total_size : Nat
  cache : Nat → Stack
  cache_capacity : Nat
  cache_count : Nat
  active_count : Nat

/-- `cfiber_growable_stack_allocator_args_t`. -/
structure GrowableArgs where
  max_stack_size : Nat
  cache_capacity : Nat
  initial_cached : Nat
  deriving DecidableEq, Repr

variable {T : Target} {ν : Type}

/-- The descriptors in the cache. -/
def GrowableStackAllocator.cached (alloc : GrowableStackAllocator) : List Stack :=
  (List.range alloc.cache_count).map alloc.cache

def growable_allocator_cleanup (K : Mmu ν) (alloc : GrowableStackAllocator) (p : Proc ν) : Proc ν :=
  alloc.cached.foldl (fun p stack => (cfiber_growable_stack_destroy K stack p).2) p

/-- The loop that fills the cache, from index `i`, `n` stacks to go. -/
def fill_cache (T : Target) (K : Mmu ν) (page : Nat) : (n i : Nat) → GrowableStackAllocator →
    Proc ν → Option GrowableStackAllocator × Proc ν
  | 0, _, alloc, p => (some alloc, p)
  | n + 1, i, alloc, p =>
    let (stack, p) := cfiber_growable_stack_create T K page alloc.max_stack_size p
    let alloc := { alloc with cache := Function.update alloc.cache i stack }
    match stack.mem_base with
    | none => (none, growable_allocator_cleanup K alloc p)
    | some _ =>
      fill_cache T K page n (i + 1) { alloc with cache_count := T.wrap (alloc.cache_count + 1) } p

/-- `heap` says which of the two `calloc`s succeed. -/
def cfiber_growable_stack_allocator_create (T : Target) (K : Mmu ν) (page : Nat)
    (heap : Bool × Bool) (args : GrowableArgs) (p : Proc ν) :
    Option GrowableStackAllocator × Proc ν :=
  if page = 0 then (none, p)
  else if args.max_stack_size = 0 ∨ args.max_stack_size &&& (page - 1) ≠ 0 then (none, p)
  else if args.cache_capacity = 0 ∨ args.initial_cached > args.cache_capacity then (none, p)
  else if !heap.1 then (none, p)
  else
    let alloc : GrowableStackAllocator := {
      max_stack_size := args.max_stack_size
      total_size := T.wrap (args.max_stack_size + page)
      cache := fun _ => .null
      cache_capacity := args.cache_capacity
      cache_count := 0
      active_count := 0 }
    if !heap.2 then (none, p)
    else fill_cache T K page args.initial_cached 0 alloc p

/-- What `destroy` returns, and the process it leaves. -/
def cfiber_growable_stack_allocator_destroy (K : Mmu ν) (alloc : GrowableStackAllocator)
    (p : Proc ν) : Int × Proc ν :=
  let res := if alloc.active_count ≠ 0 then -1 else 0
  (res, growable_allocator_cleanup K alloc p)

def cfiber_growable_stack_alloc (T : Target) (K : Mmu ν) (page : Nat)
    (alloc : GrowableStackAllocator) (p : Proc ν) : Stack × GrowableStackAllocator × Proc ν :=
  if 0 < alloc.cache_count then
    let alloc := { alloc with active_count := T.wrap (alloc.active_count + 1) }
    let alloc := { alloc with cache_count := alloc.cache_count - 1 }
    (alloc.cache alloc.cache_count, alloc, p)
  else
    let (stack, p) := cfiber_growable_stack_create T K page alloc.max_stack_size p
    match stack.mem_base with
    | some _ => (stack, { alloc with active_count := T.wrap (alloc.active_count + 1) }, p)
    | none => (stack, alloc, p)

/-- The caller's descriptor comes back zeroed. -/
def cfiber_growable_stack_release (T : Target) (K : Mmu ν) (page : Nat)
    (alloc : GrowableStackAllocator) (stack : Stack) (p : Proc ν) :
    Stack × GrowableStackAllocator × Proc ν :=
  if stack.total_size ≠ alloc.total_size then
    -- not ours
    let (stack, p) := cfiber_growable_stack_destroy K stack p
    (stack, alloc, p)
  else
    let alloc := { alloc with
      active_count := T.wrap (alloc.active_count + 2 ^ T.WORD_BITS - 1) }
    if alloc.cache_count ≥ alloc.cache_capacity then
      let (_, p) := cfiber_growable_stack_destroy K stack p
      (.null, alloc, p)
    else
      let p := cfiber_growable_stack_recycle T K page stack p
      (.null, { alloc with
        cache := Function.update alloc.cache alloc.cache_count stack
        cache_count := T.wrap (alloc.cache_count + 1) }, p)

/-! ## §2. Holders. -/

/-- The holders are the cache and, outside the pool, `out`; each holds a whole stack, and the
counters count. -/
structure PoolOk (T : Target) (Mapped : ν → Region → Prop) (good : ν → Prop) (page : Nat)
    (alloc : GrowableStackAllocator) (out : List Stack) (p : Proc ν) : Prop where
  held : Holding T Mapped good page (alloc.cached ++ out) p
  whole : ∀ stack ∈ alloc.cached ++ out, ∃ b, stack = whole page alloc.max_stack_size b
  count : alloc.cache_count ≤ alloc.cache_capacity
  capacity : alloc.cache_capacity < 2 ^ T.WORD_BITS
  active : alloc.active_count = out.length
  total : alloc.total_size = T.wrap (alloc.max_stack_size + page)

variable {K : Mmu ν} {Mapped : ν → Region → Prop} {good : ν → Prop} {p p' : Proc ν} {page : Nat}
  {alloc alloc' : GrowableStackAllocator} {out : List Stack} {stack stack' : Stack}

theorem PoolOk.perm {out' : List Stack} (h : PoolOk T Mapped good page alloc out p)
    (hp : out.Perm out') : PoolOk T Mapped good page alloc out' p :=
  ⟨h.held.perm (hp.append_left _), fun s hs => h.whole s ((hp.append_left _).mem_iff.mpr hs),
    h.count, h.capacity, h.active.trans hp.length_eq, h.total⟩

/-- A slot past `cache_count` is not in the cache. -/
theorem cached_put (alloc : GrowableStackAllocator) (stack : Stack) :
    GrowableStackAllocator.cached
      { alloc with cache := Function.update alloc.cache alloc.cache_count stack } =
      alloc.cached := by
  refine List.map_congr_left fun i hi => Function.update_of_ne ?_ _ _
  exact Nat.ne_of_lt (List.mem_range.mp hi)

theorem cached_push (alloc : GrowableStackAllocator) (stack : Stack) (active : Nat) :
    GrowableStackAllocator.cached
      { alloc with
        cache := Function.update alloc.cache alloc.cache_count stack
        cache_count := alloc.cache_count + 1
        active_count := active } = alloc.cached ++ [stack] := by
  rw [← cached_put alloc stack]
  show (List.range (alloc.cache_count + 1)).map _ = _
  rw [List.range_succ, List.map_append, List.map_singleton]
  exact congrArg (_ ++ [·]) (Function.update_self _ _ _)

/-- A whole stack fits the address space, so its size is the pool's. -/
theorem PoolOk.size_fits (h : PoolOk T Mapped good page alloc out p)
    (hs : stack ∈ alloc.cached ++ out) : alloc.max_stack_size + page < 2 ^ T.WORD_BITS := by
  obtain ⟨b, rfl⟩ := h.whole stack hs
  have hfit := (h.held.proc.fit _ (h.held.mem_live hs)).2.2
  simp only [mappingOf_whole] at hfit
  omega

theorem PoolOk.total_size (h : PoolOk T Mapped good page alloc out p)
    (hs : stack ∈ alloc.cached ++ out) : stack.total_size = alloc.total_size := by
  have hfit := h.size_fits hs
  obtain ⟨b, rfl⟩ := h.whole stack hs
  rw [h.total, T.wrap_of_lt hfit]
  rfl

/-! ## §3. Taking a stack. -/

/-- A stack leaves the cache. -/
theorem PoolOk.uncache (h : PoolOk T Mapped good page alloc out p) (hpos : 0 < alloc.cache_count) :
    PoolOk T Mapped good page
      { alloc with
        active_count := T.wrap (alloc.active_count + 1)
        cache_count := alloc.cache_count - 1 }
      (alloc.cache (alloc.cache_count - 1) :: out) p := by
  obtain ⟨n, hn⟩ : ∃ n, alloc.cache_count = n + 1 := ⟨alloc.cache_count - 1, by omega⟩
  have hsplit : alloc.cached = (List.range n).map alloc.cache ++ [alloc.cache n] := by
    unfold GrowableStackAllocator.cached
    rw [hn, List.range_succ, List.map_append]
    rfl
  have hlist : (List.range n).map alloc.cache ++ alloc.cache n :: out = alloc.cached ++ out := by
    rw [hsplit, List.append_assoc]
    rfl
  have hfew := h.held.few
  rw [← hlist, List.length_append, List.length_cons] at hfew
  rw [hn]
  refine ⟨?_, ?_, ?_, h.capacity, ?_, h.total⟩
  · show Holding T Mapped good page ((List.range n).map alloc.cache ++ alloc.cache n :: out) p
    rw [hlist]
    exact h.held
  · show ∀ stack ∈ (List.range n).map alloc.cache ++ alloc.cache n :: out, _
    rw [hlist]
    exact h.whole
  · show n ≤ alloc.cache_capacity
    have := h.count
    omega
  · show T.wrap (alloc.active_count + 1) = _
    rw [h.active, T.wrap_of_lt (by omega)]
    rfl

/-- **`cfiber_growable_stack_alloc`** hands out one more whole stack, or none and the pool is as
it was. -/
theorem PoolOk.take (H : MmuOk T K Mapped good) (h : PoolOk T Mapped good page alloc out p)
    (heq : cfiber_growable_stack_alloc T K page alloc p = (stack, alloc', p')) :
    (stack = .null ∧ alloc' = alloc ∧ PoolOk T Mapped good page alloc out p') ∨
      PoolOk T Mapped good page alloc' (stack :: out) p' := by
  unfold cfiber_growable_stack_alloc at heq
  split_ifs at heq with hpos
  · right
    obtain ⟨rfl, rfl, rfl⟩ : _ ∧ _ ∧ _ := by simpa only [Prod.mk.injEq] using heq
    exact h.uncache hpos
  · rcases hc : cfiber_growable_stack_create T K page alloc.max_stack_size p with ⟨st, p₁⟩
    rw [hc] at heq
    rcases h.held.create H hc with ⟨rfl, hold⟩ | ⟨b, rfl, -, -, hnew⟩
    · left
      replace heq : (Stack.null, alloc, p₁) = (stack, alloc', p') := heq
      obtain ⟨rfl, rfl, rfl⟩ : _ ∧ _ ∧ _ := by simpa only [Prod.mk.injEq] using heq
      exact ⟨rfl, rfl, hold, h.whole, h.count, h.capacity, h.active, h.total⟩
    · right
      replace heq : (Stacks.whole page alloc.max_stack_size b,
          { alloc with active_count := T.wrap (alloc.active_count + 1) }, p₁) =
          (stack, alloc', p') := heq
      obtain ⟨rfl, rfl, rfl⟩ : _ ∧ _ ∧ _ := by simpa only [Prod.mk.injEq] using heq
      have hfew := hnew.few
      rw [List.length_cons, List.length_append] at hfew
      refine ⟨hnew.perm List.perm_middle.symm, ?_, h.count, h.capacity, ?_, h.total⟩
      · intro s hs
        rcases List.mem_cons.mp (List.perm_middle.mem_iff.mp hs) with rfl | hs
        · exact ⟨b, rfl⟩
        · exact h.whole s hs
      · show T.wrap (alloc.active_count + 1) = _
        rw [h.active, T.wrap_of_lt (by omega)]
        rfl

theorem cfiber_growable_stack_alloc_max
    (heq : cfiber_growable_stack_alloc T K page alloc p = (stack, alloc', p')) :
    alloc'.max_stack_size = alloc.max_stack_size := by
  obtain rfl : (cfiber_growable_stack_alloc T K page alloc p).2.1 = alloc' := by rw [heq]
  unfold cfiber_growable_stack_alloc
  split
  · rfl
  · dsimp only
    split <;> rfl

/-! ## §4. Giving one back. -/

theorem cfiber_growable_stack_release_max
    (heq : cfiber_growable_stack_release T K page alloc stack p = (stack', alloc', p')) :
    alloc'.max_stack_size = alloc.max_stack_size := by
  obtain rfl : (cfiber_growable_stack_release T K page alloc stack p).2.1 = alloc' := by rw [heq]
  unfold cfiber_growable_stack_release
  dsimp only
  split_ifs <;> rfl

/-- **`cfiber_growable_stack_release`** of an outstanding stack: it is cached or unmapped, and
outstanding no more. -/
theorem PoolOk.release (H : MmuOk T K Mapped good) (h : PoolOk T Mapped good page alloc out p)
    (hmem : stack ∈ out)
    (heq : cfiber_growable_stack_release T K page alloc stack p = (stack', alloc', p')) :
    PoolOk T Mapped good page alloc' (out.erase stack) p' := by
  have hperm : (alloc.cached ++ out).Perm (stack :: (alloc.cached ++ out.erase stack)) :=
    ((List.perm_cons_erase hmem).append_left _).trans List.perm_middle
  have hwhole : ∀ s ∈ alloc.cached ++ out.erase stack, ∃ b, s = Stacks.whole page alloc.max_stack_size b :=
    fun s hs => h.whole s (hperm.mem_iff.mpr (List.mem_cons_of_mem _ hs))
  have hfew := h.held.few
  have hlen := List.length_erase_of_mem hmem
  have hpos := List.length_pos_of_mem hmem
  rw [List.length_append] at hfew
  -- the counter steps down without wrapping
  have hactive : T.wrap (alloc.active_count + 2 ^ T.WORD_BITS - 1) = (out.erase stack).length := by
    unfold Build.wrap
    rw [h.active, hlen, show out.length + 2 ^ T.WORD_BITS - 1 = out.length - 1 + 2 ^ T.WORD_BITS by omega,
      Nat.add_mod_right, Nat.mod_eq_of_lt (by omega)]
  unfold cfiber_growable_stack_release at heq
  rw [if_neg (not_not.mpr (h.total_size (List.mem_append_right _ hmem)))] at heq
  dsimp only at heq
  split_ifs at heq with hfull
  · -- the cache is full: the mapping goes
    obtain ⟨rfl, rfl, rfl⟩ : _ ∧ _ ∧ _ := by simpa only [Prod.mk.injEq] using heq
    exact ⟨(h.held.perm hperm).destroy H, hwhole, h.count, h.capacity, hactive, h.total⟩
  · -- the descriptor moves into the cache
    obtain ⟨rfl, rfl, rfl⟩ : _ ∧ _ ∧ _ := by simpa only [Prod.mk.injEq] using heq
    have hlt : alloc.cache_count < alloc.cache_capacity := by omega
    have hcap := h.capacity
    have hwrap : T.wrap (alloc.cache_count + 1) = alloc.cache_count + 1 := T.wrap_of_lt (by omega)
    have hlist : (alloc.cached ++ [stack] ++ out.erase stack).Perm (alloc.cached ++ out) := by
      rw [List.append_assoc]
      exact (List.perm_cons_erase hmem).symm.append_left _
    rw [hwrap]
    refine ⟨?_, ?_, hlt, h.capacity, hactive, h.total⟩
    · rw [cached_push]
      exact (h.held.perm hlist.symm).recycle H stack
    · rw [cached_push]
      exact fun s hs => h.whole s (hlist.mem_iff.mp hs)

/-- A stack from elsewhere: not of the pool's size, and not on top of a mapping of the pool's. -/
def Foreign (page : Nat) (alloc : GrowableStackAllocator) (p : Proc ν) (stack : Stack) : Prop :=
  stack.total_size ≠ alloc.total_size ∧
    ∀ m ∈ p.live, Apart (mappingOf page stack).region m.region

instance (page : Nat) (alloc : GrowableStackAllocator) (p : Proc ν) (stack : Stack) :
    Decidable (Foreign page alloc p stack) := by
  unfold Foreign Apart
  exact inferInstance

/-- **`cfiber_growable_stack_release`** of a foreign stack: the pool is as it was. -/
theorem PoolOk.foreign (H : MmuOk T K Mapped good) (h : PoolOk T Mapped good page alloc out p)
    (hf : Foreign page alloc p stack)
    (heq : cfiber_growable_stack_release T K page alloc stack p = (stack', alloc', p')) :
    alloc' = alloc ∧ PoolOk T Mapped good page alloc out p' := by
  unfold cfiber_growable_stack_release at heq
  rw [if_pos hf.1] at heq
  obtain ⟨-, rfl, rfl⟩ : _ ∧ _ ∧ _ := by simpa only [Prod.mk.injEq] using heq
  have hsize : ∀ m ∈ p.live, m.size ≠ stack.total_size := by
    intro m hm hs
    obtain ⟨s, hmem, rfl⟩ := List.mem_map.mp (h.held.live.mem_iff.mp hm)
    exact hf.1 (hs.symm.trans (h.total_size hmem))
  exact ⟨rfl, h.held.foreign H hsize hf.2, h.whole, h.count, h.capacity, h.active, h.total⟩

/-! ## §5. Making and unmaking the pool. -/

/-- **The clean-up** unmaps the cached stacks, one after the other; the others stay. -/
theorem Holding.cleanup (H : MmuOk T K Mapped good) :
    ∀ {hs rest : List Stack} {p : Proc ν}, Holding T Mapped good page (hs ++ rest) p →
      Holding T Mapped good page rest
        (hs.foldl (fun p stack => (cfiber_growable_stack_destroy K stack p).2) p) := by
  intro hs
  induction hs with
  | nil =>
      intro rest p h
      exact h
  | cons stack hs ih =>
      intro rest p h
      exact ih (h.destroy H)

/-- A new stack goes into the cache. -/
theorem PoolOk.stock (h : PoolOk T Mapped good page alloc [] p) {b : Nat}
    (hnew : Holding T Mapped good page
      (Stacks.whole page alloc.max_stack_size b :: (alloc.cached ++ [])) p')
    (hroom : alloc.cache_count < alloc.cache_capacity) :
    PoolOk T Mapped good page
      { alloc with
        cache := Function.update alloc.cache alloc.cache_count
          (Stacks.whole page alloc.max_stack_size b)
        cache_count := T.wrap (alloc.cache_count + 1) } [] p' := by
  have hcap := h.capacity
  rw [T.wrap_of_lt (by omega)]
  refine ⟨?_, ?_, hroom, h.capacity, h.active, h.total⟩
  · rw [cached_push, List.append_nil]
    refine hnew.perm ?_
    rw [List.append_nil]
    exact (List.perm_append_singleton _ _).symm
  · rw [cached_push, List.append_nil]
    intro s hs
    rcases List.mem_append.mp hs with hs | hs
    · exact h.whole s (List.mem_append_left _ hs)
    · exact ⟨b, List.mem_singleton.mp hs⟩

/-- **Filling the cache** ends with a pool in which nothing is outstanding; or with nothing
mapped. -/
theorem PoolOk.fill (H : MmuOk T K Mapped good) (n : Nat) :
    ∀ {alloc : GrowableStackAllocator} {p : Proc ν} {r : Option GrowableStackAllocator},
      PoolOk T Mapped good page alloc [] p → alloc.cache_count + n ≤ alloc.cache_capacity →
      fill_cache T K page n alloc.cache_count alloc p = (r, p') →
      (r = none ∧ p'.live = []) ∨
        ∃ alloc', r = some alloc' ∧ PoolOk T Mapped good page alloc' [] p' ∧
          alloc'.max_stack_size = alloc.max_stack_size := by
  induction n with
  | zero =>
      intro alloc p r h _ heq
      obtain ⟨rfl, rfl⟩ := Prod.mk.inj heq
      exact Or.inr ⟨alloc, rfl, h, rfl⟩
  | succ n ih =>
      intro alloc p r h hcap heq
      unfold fill_cache at heq
      rcases hc : cfiber_growable_stack_create T K page alloc.max_stack_size p with ⟨st, p₁⟩
      rw [hc] at heq
      rcases h.held.create H hc with ⟨rfl, hold⟩ | ⟨b, rfl, -, -, hnew⟩
      · -- no stack: those made so far are unmapped again
        left
        obtain ⟨rfl, rfl⟩ := Prod.mk.inj heq
        refine ⟨rfl, ?_⟩
        have hempty := (hold.cleanup H).live
        unfold growable_allocator_cleanup
        rw [cached_put]
        exact hempty.eq_nil
      · have hlt := h.capacity
        have hwrap : T.wrap (alloc.cache_count + 1) = alloc.cache_count + 1 :=
          T.wrap_of_lt (by omega)
        have hnext := h.stock hnew (by omega)
        rw [hwrap] at hnext
        replace heq : fill_cache T K page n (alloc.cache_count + 1)
            { alloc with
              cache := Function.update alloc.cache alloc.cache_count
                (Stacks.whole page alloc.max_stack_size b)
              cache_count := T.wrap (alloc.cache_count + 1) } p₁ = (r, p') := heq
        rw [hwrap] at heq
        have hroom : alloc.cache_count + 1 + n ≤ alloc.cache_capacity := by omega
        rcases ih hnext hroom heq with hnone | ⟨alloc', hsome, hok, hmax⟩
        · exact Or.inl hnone
        · exact Or.inr ⟨alloc', hsome, hok, hmax⟩

/-- **A new pool**: nothing is outstanding.  If it cannot be made, nothing is left mapped. -/
theorem PoolOk.create (H : MmuOk T K Mapped good) {heap : Bool × Bool} {args : GrowableArgs}
    {r : Option GrowableStackAllocator} (hgood : good p.env) (hmade : p.made = [])
    (hargs : args.cache_capacity < 2 ^ T.WORD_BITS)
    (heq : cfiber_growable_stack_allocator_create T K page heap args p = (r, p')) :
    (r = none ∧ p'.live = []) ∨
      ∃ alloc, r = some alloc ∧ PoolOk T Mapped good page alloc [] p' ∧
        alloc.max_stack_size = args.max_stack_size := by
  have hlive : p.live = [] := by
    unfold Proc.live
    rw [hmade]
    rfl
  have hrefused : (none, p) = (r, p') → r = none ∧ p'.live = [] := by
    intro hn
    obtain ⟨rfl, rfl⟩ := Prod.mk.inj hn
    exact ⟨rfl, hlive⟩
  unfold cfiber_growable_stack_allocator_create at heq
  dsimp only at heq
  split_ifs at heq with hpage hmax hcap hheap hcache
  · exact Or.inl (hrefused heq)
  · exact Or.inl (hrefused heq)
  · exact Or.inl (hrefused heq)
  · exact Or.inl (hrefused heq)
  · exact Or.inl (hrefused heq)
  · -- the arguments are accepted, and an empty cache is filled
    have hproc : ProcOk T Mapped good p := by
      refine ⟨hgood, ?_, ?_, ?_⟩
      · rw [hlive]
        exact fun _ hm => absurd hm List.not_mem_nil
      · rw [hlive]
        exact fun _ hm => absurd hm List.not_mem_nil
      · rw [hlive]
        exact List.Pairwise.nil
    have hstart : PoolOk T Mapped good page
        { max_stack_size := args.max_stack_size
          total_size := T.wrap (args.max_stack_size + page)
          cache := fun _ => .null
          cache_capacity := args.cache_capacity
          cache_count := 0
          active_count := 0 } [] p :=
      ⟨⟨hproc, by rw [hlive]; exact List.Perm.refl _⟩, fun _ hs => absurd hs List.not_mem_nil,
        Nat.zero_le _, hargs, rfl, rfl⟩
    have hroom : 0 + args.initial_cached ≤ args.cache_capacity := by omega
    exact PoolOk.fill H args.initial_cached hstart hroom heq

/-! ## §6. The pool and its clients. -/

/-- The pool, the process, and the descriptors its clients have. -/
structure PoolSys (ν : Type) where
  alloc : GrowableStackAllocator
  proc : Proc ν
  outstanding : List Stack

/-- A client gives back what it was handed, once; or something that is not the pool's. -/
inductive PoolCall where
  | alloc
  | release (stack : Stack)
  | release_foreign (stack : Stack)
  deriving DecidableEq, Repr

def PoolSys.step (T : Target) (K : Mmu ν) (page : Nat) (S : PoolSys ν) :
    PoolCall → Option (PoolSys ν)
  | .alloc =>
    let (stack, alloc, p) := cfiber_growable_stack_alloc T K page S.alloc S.proc
    some ⟨alloc, p, if stack.mem_base.isSome then stack :: S.outstanding else S.outstanding⟩
  | .release stack =>
    if stack ∈ S.outstanding then
      let (_, alloc, p) := cfiber_growable_stack_release T K page S.alloc stack S.proc
      some ⟨alloc, p, S.outstanding.erase stack⟩
    else none
  | .release_foreign stack =>
    if Foreign page S.alloc S.proc stack then
      let (_, alloc, p) := cfiber_growable_stack_release T K page S.alloc stack S.proc
      some ⟨alloc, p, S.outstanding⟩
    else none

def PoolSys.Cached (page : Nat) (S : PoolSys ν) (m : Mapping) : Prop :=
  ∃ stack ∈ S.alloc.cached, mappingOf page stack = m

def PoolSys.Outstanding (page : Nat) (S : PoolSys ν) (m : Mapping) : Prop :=
  ∃ stack ∈ S.outstanding, mappingOf page stack = m

/-- What the pool promises in every state. -/
structure PoolLaw (T : Target) (K : Mmu ν) (Mapped : ν → Region → Prop) (page max_size : Nat)
    (S : PoolSys ν) : Prop where
  /-- Each mapping ever made is outstanding, cached or unmapped. -/
  fate : ∀ m ∈ S.proc.made,
    (S.Outstanding page m ∧ ¬ S.Cached page m ∧ m.mapped = true) ∨
    (¬ S.Outstanding page m ∧ S.Cached page m ∧ m.mapped = true) ∨
    (¬ S.Outstanding page m ∧ ¬ S.Cached page m ∧ m.mapped = false)
  /-- Each holder has a mapping of its own, and it is there. -/
  held : ∀ stack ∈ S.alloc.cached ++ S.outstanding,
    Mapped S.proc.env (mappingOf page stack).region ∧
      ∃! i : Nat, S.proc.made[i]? = some (mappingOf page stack)
  apart : (S.alloc.cached ++ S.outstanding).Pairwise fun s s' =>
    Apart (mappingOf page s).region (mappingOf page s').region
  capacity : S.alloc.cached.length ≤ S.alloc.cache_capacity
  active : S.alloc.active_count = S.outstanding.length
  failed_alloc : ∀ {stack alloc p},
    cfiber_growable_stack_alloc T K page S.alloc S.proc = (stack, alloc, p) →
      stack.mem_base = none → alloc.active_count = S.alloc.active_count
  foreign_release : ∀ {stack stack' alloc p}, Foreign page S.alloc S.proc stack →
    cfiber_growable_stack_release T K page S.alloc stack S.proc = (stack', alloc, p) →
      alloc.active_count = S.alloc.active_count
  /-- The guard page is the lowest one of the mapping, and the rest is the client's. -/
  handed : ∀ {stack alloc p},
    cfiber_growable_stack_alloc T K page S.alloc S.proc = (stack, alloc, p) →
      stack.mem_base ≠ none →
        cfiber_stack_usable_size T stack = max_size ∧
          ∃ m ∈ p.made, m.mapped = true ∧ stack.mem_base = some m.base ∧ m.guard = page ∧
            stack.usable_base = m.base + m.guard ∧ stack.stack_top = m.base + m.size ∧
            stack.total_size = m.size ∧ m.guard + max_size = m.size
  destroy : ∀ {res p}, cfiber_growable_stack_allocator_destroy K S.alloc S.proc = (res, p) →
    (res = 0 ↔ S.outstanding = []) ∧ (res = 0 ∨ res = -1) ∧
      (∀ stack ∈ S.outstanding, Mapped p.env (mappingOf page stack).region) ∧
      p.made.length = S.proc.made.length ∧
      ∀ {i : Nat} {m m' : Mapping}, S.proc.made[i]? = some m → p.made[i]? = some m' →
        ((m.mapped = true ∧ m'.mapped = false) ↔ S.Cached page m)

variable {S S' : PoolSys ν}

/-- **One call** keeps the pool. -/
theorem PoolOk.step (H : MmuOk T K Mapped good) {max_size : Nat} {call : PoolCall}
    (h : PoolOk T Mapped good page S.alloc S.outstanding S.proc)
    (hmax : S.alloc.max_stack_size = max_size) (hs : S.step T K page call = some S') :
    PoolOk T Mapped good page S'.alloc S'.outstanding S'.proc ∧
      S'.alloc.max_stack_size = max_size := by
  cases call with
  | alloc =>
      rcases heq : cfiber_growable_stack_alloc T K page S.alloc S.proc with ⟨stack, alloc, p⟩
      simp only [PoolSys.step, heq, Option.some.injEq] at hs
      subst hs
      have hmax' := cfiber_growable_stack_alloc_max heq
      refine ⟨?_, hmax'.trans hmax⟩
      rcases h.take H heq with ⟨rfl, rfl, hok⟩ | hok
      · exact hok
      · obtain ⟨b, hb⟩ := hok.whole stack (List.mem_append_right _ List.mem_cons_self)
        have hsome : stack.mem_base.isSome = true := by rw [hb]; rfl
        rw [if_pos hsome]
        exact hok
  | release stack =>
      simp only [PoolSys.step] at hs
      split_ifs at hs with hmem
      rcases heq : cfiber_growable_stack_release T K page S.alloc stack S.proc with ⟨st, alloc, p⟩
      rw [heq] at hs
      obtain rfl := Option.some.inj hs
      exact ⟨h.release H hmem heq, (cfiber_growable_stack_release_max heq).trans hmax⟩
  | release_foreign stack =>
      simp only [PoolSys.step] at hs
      split_ifs at hs with hf
      rcases heq : cfiber_growable_stack_release T K page S.alloc stack S.proc with ⟨st, alloc, p⟩
      rw [heq] at hs
      obtain rfl := Option.some.inj hs
      obtain ⟨rfl, hok⟩ := h.foreign H hf heq
      exact ⟨hok, hmax⟩

/-! ## §7. The promise. -/

/-- A mapping still there has one holder, inside the pool or outside it. -/
theorem PoolOk.fate (h : PoolOk T Mapped good page S.alloc S.outstanding S.proc) {m : Mapping}
    (hm : m ∈ S.proc.made) :
    (S.Outstanding page m ∧ ¬ S.Cached page m ∧ m.mapped = true) ∨
    (¬ S.Outstanding page m ∧ S.Cached page m ∧ m.mapped = true) ∨
    (¬ S.Outstanding page m ∧ ¬ S.Cached page m ∧ m.mapped = false) := by
  obtain ⟨-, -, hap⟩ := List.pairwise_append.mp h.held.apart
  cases hmm : m.mapped with
  | false =>
      -- a holder's mapping is mapped
      refine Or.inr (Or.inr ⟨?_, ?_, rfl⟩)
      · rintro ⟨stack, -, rfl⟩
        exact absurd hmm (by simp [mappingOf])
      · rintro ⟨stack, -, rfl⟩
        exact absurd hmm (by simp [mappingOf])
  | true =>
      have hlive : m ∈ S.proc.live := List.mem_filter.mpr ⟨hm, hmm⟩
      have hsize := (h.held.proc.fit m hlive).2.1
      have hnot : S.Outstanding page m → ¬ S.Cached page m := by
        rintro ⟨s, hs, rfl⟩ ⟨s', hs', heq⟩
        have hself := hap s' hs' s hs
        rw [heq] at hself
        have hzero : (mappingOf page s).size = 0 := apart_self hself
        omega
      obtain ⟨stack, hmem, rfl⟩ := List.mem_map.mp (h.held.live.mem_iff.mp hlive)
      rcases List.mem_append.mp hmem with hc | ho
      · have hcached : S.Cached page (mappingOf page stack) := ⟨stack, hc, rfl⟩
        exact Or.inr (Or.inl ⟨fun hout => hnot hout hcached, hcached, rfl⟩)
      · have hout : S.Outstanding page (mappingOf page stack) := ⟨stack, ho, rfl⟩
        exact Or.inl ⟨hout, hnot hout, rfl⟩

/-- A holder's mapping stands in the history once. -/
theorem PoolOk.once (h : PoolOk T Mapped good page alloc out p)
    (hs : stack ∈ alloc.cached ++ out) : ∃! i : Nat, p.made[i]? = some (mappingOf page stack) := by
  have hmem : mappingOf page stack ∈ p.made := List.mem_of_mem_filter (h.held.mem_live hs)
  obtain ⟨i, hi, heq⟩ := List.mem_iff_getElem.mp hmem
  refine ⟨i, List.getElem?_eq_some_iff.mpr ⟨hi, heq⟩, ?_⟩
  intro j hj
  obtain ⟨hj', hjeq⟩ := List.getElem?_eq_some_iff.mp hj
  exact h.held.proc.unique hj' hi (by rw [hjeq]; rfl) (by rw [heq]; rfl) (by rw [hjeq, heq])

/-- The clean-up, on one mapping. -/
def unmapAll (hs : List Stack) (m : Mapping) : Mapping :=
  hs.foldl (fun m stack => m.unmap (stack.mem_base.getD 0) stack.total_size) m

theorem cleanup_made (hs : List Stack) : ∀ (p : Proc ν),
    (hs.foldl (fun p stack => (cfiber_growable_stack_destroy K stack p).2) p).made =
      p.made.map (unmapAll hs) := by
  induction hs with
  | nil =>
      intro p
      exact (List.map_id _).symm
  | cons stack hs ih =>
      intro p
      rw [List.foldl_cons, ih]
      show (p.made.map _).map _ = _
      rw [List.map_map]
      rfl

theorem unmapAll_gone (hs : List Stack) :
    ∀ {m : Mapping}, m.mapped = false → unmapAll hs m = m := by
  induction hs with
  | nil =>
      intro m _
      rfl
  | cons stack hs ih =>
      intro m hm
      show unmapAll hs (m.unmap _ _) = m
      unfold Mapping.unmap
      rw [if_neg (by simp [hm])]
      exact ih hm

theorem unmapAll_other (hs : List Stack) {m : Mapping}
    (h : ∀ stack ∈ hs, m.region ≠ (mappingOf page stack).region) : unmapAll hs m = m := by
  induction hs with
  | nil => rfl
  | cons stack hs ih =>
      have hne : m.region ≠ (stack.mem_base.getD 0, stack.total_size) := h stack List.mem_cons_self
      show unmapAll hs (m.unmap _ _) = m
      unfold Mapping.unmap
      rw [if_neg fun hr => hne hr.2]
      exact ih fun s hs => h s (List.mem_cons_of_mem _ hs)

theorem unmapAll_mem (page : Nat) {hs : List Stack} (hmem : stack ∈ hs) :
    ∀ {m : Mapping}, m.region = (mappingOf page stack).region →
      (unmapAll hs m).mapped = false := by
  induction hs with
  | nil => exact absurd hmem List.not_mem_nil
  | cons s hs ih =>
      intro m hr
      show (unmapAll hs (m.unmap _ _)).mapped = false
      cases hm : (m.unmap (s.mem_base.getD 0) s.total_size).mapped with
      | false =>
          rw [unmapAll_gone hs hm]
          exact hm
      | true =>
          -- `s` is another stack: the head would have cleared the flag
          have hkeep : m.unmap (s.mem_base.getD 0) s.total_size = m := by
            unfold Mapping.unmap at hm ⊢
            split_ifs at hm ⊢
            rfl
          rw [hkeep] at hm ⊢
          rcases List.mem_cons.mp hmem with rfl | hmem
          · unfold Mapping.unmap at hkeep
            rw [if_pos ⟨hm, hr⟩] at hkeep
            exact absurd (congrArg Mapping.mapped hkeep) (by simp [hm])
          · exact ih hmem hr

/-- **`destroy`** unmaps what is cached, and nothing else. -/
theorem PoolOk.destroy (H : MmuOk T K Mapped good)
    (h : PoolOk T Mapped good page S.alloc S.outstanding S.proc) {res : Int}
    (heq : cfiber_growable_stack_allocator_destroy K S.alloc S.proc = (res, p)) :
    (res = 0 ↔ S.outstanding = []) ∧ (res = 0 ∨ res = -1) ∧
      (∀ stack ∈ S.outstanding, Mapped p.env (mappingOf page stack).region) ∧
      p.made.length = S.proc.made.length ∧
      ∀ {i : Nat} {m m' : Mapping}, S.proc.made[i]? = some m → p.made[i]? = some m' →
        ((m.mapped = true ∧ m'.mapped = false) ↔ S.Cached page m) := by
  obtain ⟨hres, rfl⟩ := Prod.mk.inj heq
  have hmade : (growable_allocator_cleanup K S.alloc S.proc).made =
      S.proc.made.map (unmapAll S.alloc.cached) := cleanup_made _ _
  obtain ⟨-, -, hap⟩ := List.pairwise_append.mp h.held.apart
  have hleft : Holding T Mapped good page S.outstanding
      (growable_allocator_cleanup K S.alloc S.proc) := h.held.cleanup H
  refine ⟨?_, ?_, fun stack hs => hleft.proc.mapped _ (hleft.mem_live hs),
    by rw [hmade, List.length_map], ?_⟩
  · rw [← hres, h.active, ← List.length_eq_zero_iff]
    split_ifs with hz
    · simp [hz]
    · simp only [true_iff]
      omega
  · rw [← hres]
    split_ifs
    · exact Or.inr rfl
    · exact Or.inl rfl
  · intro i m m' hm hm'
    have hmem : m ∈ S.proc.made := List.mem_of_getElem? hm
    rw [hmade, List.getElem?_map, hm] at hm'
    obtain rfl : unmapAll S.alloc.cached m = m' := Option.some.inj hm'
    constructor
    · rintro ⟨hmm, hgone⟩
      -- were it outstanding, it would still be mapped
      rcases h.fate hmem with ⟨hout, -, -⟩ | ⟨-, hc, -⟩ | ⟨-, -, hno⟩
      · exfalso
        obtain ⟨stack, hs, rfl⟩ := hout
        have hsize := (h.held.proc.fit _ (h.held.mem_live (List.mem_append_right _ hs))).2.1
        have hne : ∀ s ∈ S.alloc.cached,
            (mappingOf page stack).region ≠ (mappingOf page s).region := by
          intro s hs' heq
          have hself := hap s hs' stack hs
          rw [← heq] at hself
          have hzero : (mappingOf page stack).size = 0 := apart_self hself
          omega
        rw [unmapAll_other _ hne] at hgone
        exact absurd hgone (by simp [mappingOf])
      · exact hc
      · exact absurd (hmm.symm.trans hno) (by simp)
    · rintro ⟨stack, hs, rfl⟩
      exact ⟨rfl, unmapAll_mem page hs rfl⟩

/-- A stack handed out is whole. -/
theorem PoolOk.handed (h : PoolOk T Mapped good page alloc (stack :: out) p) :
    cfiber_stack_usable_size T stack = alloc.max_stack_size ∧
      ∃ m ∈ p.made, m.mapped = true ∧ stack.mem_base = some m.base ∧ m.guard = page ∧
        stack.usable_base = m.base + m.guard ∧ stack.stack_top = m.base + m.size ∧
        stack.total_size = m.size ∧ m.guard + alloc.max_stack_size = m.size := by
  have hmem : stack ∈ alloc.cached ++ stack :: out := List.mem_append_right _ List.mem_cons_self
  have hlive := h.held.mem_live hmem
  have hfits := h.size_fits hmem
  obtain ⟨b, rfl⟩ := h.whole stack hmem
  refine ⟨?_, _, List.mem_of_mem_filter hlive, rfl, rfl, rfl, rfl, rfl, rfl, Nat.add_comm _ _⟩
  show T.wrap (b + (alloc.max_stack_size + page) + 2 ^ T.WORD_BITS - (b + page)) = _
  have hsub : b + (alloc.max_stack_size + page) + 2 ^ T.WORD_BITS - (b + page) =
      alloc.max_stack_size + 2 ^ T.WORD_BITS := by omega
  unfold Build.wrap
  rw [hsub, Nat.add_mod_right, Nat.mod_eq_of_lt (by omega)]

/-- **The growable stack pool.**  Over every kernel that keeps its promises, whatever it refuses,
and every sequence of calls, the pool's promise holds. -/
theorem growable_pool_ok (H : MmuOk T K Mapped good) {heap : Bool × Bool} {args : GrowableArgs}
    {calls : List PoolCall} (hgood : good p.env) (hmade : p.made = [])
    (hargs : args.cache_capacity < 2 ^ T.WORD_BITS)
    (hcreate : cfiber_growable_stack_allocator_create T K page heap args p = (some alloc, p'))
    (hrun : exec (PoolSys.step T K page) ⟨alloc, p', []⟩ calls = some S) :
    PoolLaw T K Mapped page args.max_stack_size S := by
  rcases PoolOk.create H hgood hmade hargs hcreate with ⟨hnone, -⟩ | ⟨_, hsome, hok₀, hmax₀⟩
  · exact absurd hnone (by simp)
  obtain rfl := Option.some.inj hsome
  obtain ⟨hok, hmax⟩ := exec_inv
    (fun S => PoolOk T Mapped good page S.alloc S.outstanding S.proc ∧
      S.alloc.max_stack_size = args.max_stack_size)
    (fun S call S' hS hs => hS.1.step H hS.2 hs) ⟨hok₀, hmax₀⟩ hrun
  refine ⟨fun m hm => hok.fate hm, ?_, hok.held.apart, ?_, hok.active, ?_, ?_, ?_,
    fun heq => hok.destroy H heq⟩
  · intro stack hs
    exact ⟨hok.held.proc.mapped _ (hok.held.mem_live hs), hok.once hs⟩
  · show ((List.range _).map _).length ≤ _
    rw [List.length_map, List.length_range]
    exact hok.count
  · intro stack alloc p heq hnone
    rcases hok.take H heq with ⟨-, rfl, -⟩ | hnew
    · rfl
    · obtain ⟨b, rfl⟩ := hnew.whole stack (List.mem_append_right _ List.mem_cons_self)
      exact absurd hnone (by simp [whole])
  · intro stack stack' alloc p hf heq
    rw [(hok.foreign H hf heq).1]
  · intro stack alloc p heq hsome
    rcases hok.take H heq with ⟨rfl, -, -⟩ | hnew
    · exact absurd rfl hsome
    · have hmax' := (cfiber_growable_stack_alloc_max heq).trans hmax
      have hgeo := hnew.handed
      rw [hmax'] at hgeo
      exact hgeo

/-! ## §8. A kernel it runs on. -/

/-- Addresses are handed out in increasing order; `faults` says which calls are refused. -/
structure Arena where
  next : Nat
  faults : List Bool
  maps : List Region
  deriving DecidableEq, Repr

def arena : Mmu Arena where
  mmap n v :=
    if v.faults.head? = some true ∨ v.next + n ≥ 2 ^ 63 then
      (.error .ENOMEM, { v with faults := v.faults.tail })
    else (.ok v.next, ⟨v.next + n, v.faults.tail, (v.next, n) :: v.maps⟩)
  mprotect _ _ v :=
    (if v.faults.head? = some true then some .ENOMEM else none, { v with faults := v.faults.tail })
  munmap a n v := { v with maps := v.maps.filter fun r => r.1 + r.2 ≤ a || a + n ≤ r.1 }
  madvise _ _ v := v

theorem arena_ok : MmuOk lp64 arena (fun v r => r ∈ v.maps)
    (fun v => 0 < v.next ∧ ∀ r ∈ v.maps, r.1 + r.2 ≤ v.next) where
  mmap_ok := by
    intro n a v v' hv heq
    simp only [arena] at heq
    split_ifs at heq with hf
    · exact absurd (congrArg Prod.fst heq) (by simp)
    · obtain ⟨ha, rfl⟩ := Prod.mk.inj heq
      obtain rfl : v.next = a := Except.ok.inj ha
      have hw : 2 ^ lp64.WORD_BITS = 2 ^ 64 := rfl
      refine ⟨⟨Nat.lt_of_lt_of_le hv.1 (Nat.le_add_right _ _), ?_⟩, List.mem_cons_self, hv.1, ?_,
        ?_⟩
      · intro r hr
        rcases List.mem_cons.mp hr with rfl | hr
        · exact Nat.le_refl _
        · exact Nat.le_trans (hv.2 r hr) (Nat.le_add_right _ _)
      · rw [hw]
        omega
      · exact fun r hr => ⟨Or.inr (hv.2 r hr), List.mem_cons_of_mem _ hr⟩
  mmap_error := by
    intro n e v v' hv heq
    simp only [arena] at heq
    split_ifs at heq with hf
    · obtain ⟨-, rfl⟩ := Prod.mk.inj heq
      exact ⟨hv, fun _ hr => hr⟩
    · exact absurd (congrArg Prod.fst heq) (by simp)
  mprotect := fun hv => ⟨hv, fun _ hr => hr⟩
  munmap := by
    intro a n v hv
    refine ⟨⟨hv.1, fun r hr => hv.2 r (List.mem_filter.mp hr).1⟩, ?_⟩
    intro r hr hap
    refine List.mem_filter.mpr ⟨hr, ?_⟩
    rw [Bool.or_eq_true, decide_eq_true_iff, decide_eq_true_iff]
    exact hap.symm
  madvise := fun hv => ⟨hv, fun _ hr => hr⟩

/-- A pool of four-page stacks, two in the cache at most and one of them made at once, on a kernel
that refuses the second `mprotect`. -/
def quartet : Option GrowableStackAllocator × Proc Arena :=
  cfiber_growable_stack_allocator_create lp64 arena 4096 (true, true) ⟨16384, 2, 1⟩
    ⟨⟨4096, [false, false, false, true], []⟩, .EINVAL, []⟩

/-- One stack from the cache, a refusal, a new stack, a foreign one back, one of its own back. -/
theorem growable_pool_ok_arena : ∃ alloc p S, quartet = (some alloc, p) ∧
    exec (PoolSys.step lp64 arena 4096) ⟨alloc, p, []⟩
      [.alloc, .alloc, .alloc, .release_foreign (whole 4096 32768 (2 ^ 40)),
        .release (whole 4096 16384 4096)] = some S ∧
      PoolLaw lp64 arena (fun v r => r ∈ v.maps) 4096 16384 S := by
  have hsome : ((quartet.1.bind fun alloc => exec (PoolSys.step lp64 arena 4096)
      ⟨alloc, quartet.2, []⟩
      [.alloc, .alloc, .alloc, .release_foreign (whole 4096 32768 (2 ^ 40)),
        .release (whole 4096 16384 4096)]).isSome) = true := by decide +kernel
  obtain ⟨S, hS⟩ := Option.isSome_iff_exists.mp hsome
  obtain ⟨alloc, ha, hrun⟩ := Option.bind_eq_some_iff.mp hS
  have hq : quartet = (some alloc, quartet.2) := Prod.ext ha rfl
  exact ⟨alloc, quartet.2, S, hq, hrun, growable_pool_ok arena_ok
    ⟨by decide, fun _ h => absurd h List.not_mem_nil⟩ rfl (by decide) hq hrun⟩

end CFiber.Stacks
