/-
  CFiber.Ev.Teardown — `cfiber_reactor_destroy`.

  Here the stack pool is the growable one (`growable`), with its history of mappings.  In every
  reachable state the stacks outstanding at the pool are those of the live fibers
  (`Stocked.step`, `exec_stocked`); so the walk over the live list gives back each of them once, and
  the pool is destroyed with nothing outstanding.

  `Teardown` lists what the function does to fiber structs, stacks and backing memory, in order.

  Main result: `teardown_ok`, over every run.  The caller destroys a reactor while its loop is not
  running; the result does not rest on that.
-/
import CFiber.Ev.Census
import CFiber.Memory.Ledger
import CFiber.Stacks.GrowablePool

namespace CFiber.Ev

open CFiber.Base CFiber.Memory CFiber.Stacks

variable {T : Target} {γ κ δ ν : Type}

/-! ## §1. The code. -/

/-- The growable stack allocator as the reactor's stack pool. -/
def growable (T : Target) (M : Mmu ν) (page : Nat) :
    StackPool (GrowableStackAllocator × Proc ν) where
  cfiber_growable_stack_alloc p := cfiber_growable_stack_alloc T M page p.1 p.2
  cfiber_growable_stack_release stack p := (cfiber_growable_stack_release T M page p.1 stack p.2).2

inductive Teardown where
  /-- `f->stack` is read. -/
  | stack (f : Nat)
  /-- A stack goes back to the pool. -/
  | release (stack : Stack)
  /-- `f->live_next` is read. -/
  | next (f : Nat)
  /-- The fiber pool calls its backing allocator. -/
  | backing (call : MemCall)

/-- The `for` over the live list; the pool zeroes the descriptor it is given. -/
def release_live (T : Target) (M : Mmu ν) (page : Nat) : (fuel : Nat) → Option Nat → FiberMem →
    GrowableStackAllocator → Proc ν → GrowableStackAllocator × Proc ν × FiberMem × List Teardown
  | 0, _, m, alloc, p => (alloc, p, m, [])
  | _ + 1, none, m, alloc, p => (alloc, p, m, [])
  | fuel + 1, some f, m, alloc, p =>
    let (stack, alloc, p) := cfiber_growable_stack_release T M page alloc (m.stack f) p
    let trace := [.stack f, .release (m.stack f), .next f]
    let m := { m with stack := Function.update m.stack f stack }
    let (alloc, p, m, rest) := release_live T M page fuel (m.live_next f) m alloc p
    (alloc, p, m, trace ++ rest)

/-- What is left after the reactor: the pool when it is destroyed and what its destruction
returned, the process, the libc heap, and what was done on the way. -/
structure Remains (γ ν : Type) where
  alloc : GrowableStackAllocator
  leaked : Int
  proc : Proc ν
  libc : γ
  trace : List Teardown

/-- The live list is not longer than the number of blocks in the pool. -/
def cfiber_reactor_destroy (T : Target) (L : Libc γ) (M : Mmu ν) (page : Nat)
    (s : Reactor T γ (GrowableStackAllocator × Proc ν) κ) : Remains γ ν :=
  let blocks := s.fibers.nodes.dom.length * s.fibers.blocks_per_slab.toNat
  let (alloc, p, m, trace) := release_live T M page blocks s.live_head s.mem s.stack_pool.1
    s.stack_pool.2
  -- frees every fiber block
  let (_, (_, libc), calls) :=
    cfiber_multislab_destroy (recorded (zeroing L)) s.fibers ((m, s.libc), [])
  let (leaked, p) := cfiber_growable_stack_allocator_destroy M alloc p
  { alloc := alloc
    leaked := leaked
    proc := p
    libc := libc
    trace := trace ++ calls.map .backing }

/-! ## §2. The pool during a run. -/

variable {L : Libc γ} {M : Mmu ν} {K : Kernel κ δ} {page : Nat}
variable {out : γ → List Region} {good : γ → Prop}
variable {Mapped : ν → Region → Prop} {sane : ν → Prop}

/-- **The stacks outstanding are those of the live fibers.** -/
def Stocked (T : Target) (Mapped : ν → Region → Prop) (sane : ν → Prop) (page : Nat)
    (S : Sys T γ (GrowableStackAllocator × Proc ν) κ) : Prop :=
  PoolOk T Mapped sane page S.r.stack_pool.1 (S.alive.map S.r.mem.stack) S.r.stack_pool.2

/-- The fibers that stay keep their stacks. -/
theorem Moved.stack {S S' : Sys T γ (GrowableStackAllocator × Proc ν) κ} {m : Move} {q q' : List Nat}
    (h : Moved out (growable T M page) S S' m q q') {g : Nat} (hg : g ∈ S.alive)
    (hs : ∀ gen stack, m ≠ .spawn g gen stack) : S'.r.mem.stack g = S.r.mem.stack g := by
  by_cases hmg : m.fiber = some g
  · have hv : S'.r.mem.stack g = (m.view (view S.r g)).stack :=
      congrArg FiberView.stack (h.self g hmg)
    rw [hv]
    cases m with
    | spawn f gen stack =>
        obtain rfl := Option.some.inj hmg
        exact absurd rfl (hs gen stack)
    | _ => rfl
  · exact congrArg FiberView.stack (h.others g hg hmg)

/-- Nothing was handed out. -/
theorem no_stack (H : MmuOk T M Mapped sane) {p p' : GrowableStackAllocator × Proc ν}
    {l : List Stack} {stack : Stack} (h : PoolOk T Mapped sane page p.1 l p.2)
    (heq : (growable T M page).cfiber_growable_stack_alloc p = (stack, p'))
    (hnone : stack.mem_base = none) : PoolOk T Mapped sane page p'.1 l p'.2 := by
  rcases h.take H heq with ⟨-, ha, hold⟩ | hnew
  · rw [ha]
    exact hold
  · obtain ⟨b, rfl⟩ := hnew.whole _ (List.mem_append_right _ List.mem_cons_self)
    exact absurd hnone (by simp [whole])

/-- **One step** keeps the pool stocked. -/
theorem Stocked.step (H : MmuOk T M Mapped sane) {S S' : Sys T γ (GrowableStackAllocator × Proc ν) κ}
    {a : Action δ} {m : Move} {q q' : List Nat} (h : Stocked T Mapped sane page S)
    (hok : Ok out good S q) (hd : Does (growable T M page) K out good S a S' m q q') :
    Stocked T Mapped sane page S' := by
  have hmoved := hd.moved
  have hpool := hmoved.stack_pool
  have halive := hmoved.alive
  unfold Stocked at h ⊢
  cases m with
  | spawn f gen stack =>
      -- one more stack, one more fiber
      obtain ⟨heq, hsome⟩ := hpool
      have hf : f ∉ S.alive := fun hmem => (hok.core.roster.live f).mp hmem (hmoved.pre f rfl)
      have hself : S'.r.mem.stack f = stack := congrArg FiberView.stack (hmoved.self f rfl)
      have hrest : S.alive.map S'.r.mem.stack = S.alive.map S.r.mem.stack := by
        refine List.map_congr_left fun g hg => hmoved.stack hg ?_
        rintro gen' stack' heq
        obtain ⟨rfl, -, -⟩ := Move.spawn.inj heq
        exact hf hg
      rw [halive]
      show PoolOk T Mapped sane page _ (S'.r.mem.stack f :: S.alive.map S'.r.mem.stack) _
      rw [hself, hrest]
      rcases h.take H heq with ⟨rfl, -, -⟩ | hnew
      · exact absurd rfl hsome
      · exact hnew
  | reap f =>
      -- the completed fiber's stack goes back
      have hzombie : S.r.mem.state f = .FB_ZOMBIE := hmoved.pre f rfl
      have hf : f ∈ S.alive := (hok.core.roster.live f).mpr (by rw [hzombie]; simp)
      have hperm : (S.alive.map S.r.mem.stack).Perm
          (S.r.mem.stack f :: (S.alive.erase f).map S.r.mem.stack) :=
        (List.perm_cons_erase hf).map S.r.mem.stack
      have hrest : (S.alive.erase f).map S'.r.mem.stack = (S.alive.erase f).map S.r.mem.stack :=
        List.map_congr_left fun g hg => hmoved.stack (List.mem_of_mem_erase hg) (by simp)
      have hgone : ((S.alive.map S.r.mem.stack).erase (S.r.mem.stack f)).Perm
          ((S.alive.erase f).map S.r.mem.stack) := by
        have := hperm.erase (S.r.mem.stack f)
        rwa [List.erase_cons_head] at this
      have hp : S'.r.stack_pool = (cfiber_growable_stack_release T M page S.r.stack_pool.1
          (S.r.mem.stack f) S.r.stack_pool.2).2 := (hmoved.reaped f rfl).2
      rcases heq : cfiber_growable_stack_release T M page S.r.stack_pool.1 (S.r.mem.stack f)
        S.r.stack_pool.2 with ⟨st, alloc, p⟩
      rw [heq] at hp
      rw [halive, hp]
      show PoolOk T Mapped sane page alloc ((S.alive.erase f).map S'.r.mem.stack) p
      rw [hrest]
      exact (h.release H (List.mem_map_of_mem hf) heq).perm hgone
  | quiet =>
      have hsame : S.alive.map S'.r.mem.stack = S.alive.map S.r.mem.stack :=
        List.map_congr_left fun g hg => hmoved.stack hg (by simp)
      rw [halive]
      show PoolOk T Mapped sane page _ (S.alive.map S'.r.mem.stack) _
      rw [hsame]
      rcases hpool with hkeep | ⟨hnone, hp⟩
      · rw [hkeep]
        exact h
      · rw [hp]
        exact no_stack H h (Prod.eta _).symm hnone
  | _ =>
      have hsame : S.alive.map S'.r.mem.stack = S.alive.map S.r.mem.stack :=
        List.map_congr_left fun g hg => hmoved.stack hg (by simp)
      have hkeep : S'.r.stack_pool = S.r.stack_pool := hpool
      rw [halive, hkeep]
      show PoolOk T Mapped sane page _ (S.alive.map S'.r.mem.stack) _
      rw [hsame]
      exact h

/-- **Every run** from a reactor with a fresh stack pool keeps the pool stocked. -/
theorem exec_stocked (HL : LibcOk T L out good) (HM : MmuOk T M Mapped sane)
    {S S' : Sys T γ (GrowableStackAllocator × Proc ν) κ} {q : List Nat} {as : List (Action δ)}
    (hok : Ok out good S q) (hst : Stocked T Mapped sane page S)
    (h : exec (step L (growable T M page) K) S as = some S') :
    (∃ q', Ok out good S' q') ∧ Stocked T Mapped sane page S' := by
  apply exec_inv (fun S => (∃ q, Ok out good S q) ∧ Stocked T Mapped sane page S) _ ⟨⟨q, hok⟩, hst⟩ h
  rintro s a s' ⟨⟨q, hok⟩, hst⟩ hs
  obtain ⟨m, q', hdoes⟩ := step_does HL hok hs
  exact ⟨⟨q', hdoes.ok⟩, hst.step HM hok hdoes⟩

/-! ## §3. The walk over the live list. -/

/-- What the walk does for one fiber. -/
def visit (m : FiberMem) (f : Nat) : List Teardown := [.stack f, .release (m.stack f), .next f]

theorem update_stack (m : FiberMem) {f : Nat} {l : List Nat} (hf : f ∉ l) (stack : Stack) :
    ∀ g ∈ l, Function.update m.stack f stack g = m.stack g := by
  intro g hg
  apply Function.update_of_ne
  rintro rfl
  exact hf hg

/-- **The walk** gives back the stack of each live fiber, in the order of the list. -/
theorem release_live_spec (H : MmuOk T M Mapped sane) (l : List Nat) :
    ∀ {fuel : Nat} {m : FiberMem} {alloc : GrowableStackAllocator} {p : Proc ν},
      Linked m.live_next l → l.Nodup → l.length ≤ fuel →
      PoolOk T Mapped sane page alloc (l.map m.stack) p →
      ∃ alloc' p' m',
        release_live T M page fuel l.head? m alloc p = (alloc', p', m', l.flatMap (visit m)) ∧
          PoolOk T Mapped sane page alloc' [] p' := by
  induction l with
  | nil =>
      intro fuel m alloc p _ _ _ h
      refine ⟨alloc, p, m, ?_, h⟩
      cases fuel <;> rfl
  | cons f l ih =>
      intro fuel m alloc p hl hnd hfuel h
      obtain ⟨hf, hnd⟩ := List.nodup_cons.mp hnd
      cases fuel with
      | zero => exact absurd hfuel (by simp)
      | succ fuel =>
          rcases heq : cfiber_growable_stack_release T M page alloc (m.stack f) p with ⟨st, alloc₁, p₁⟩
          have hok₁ := h.release H List.mem_cons_self heq
          rw [List.map_cons, List.erase_cons_head] at hok₁
          -- the rest of the list is as it was
          have hsame := update_stack m hf st
          have hmap : l.map (Function.update m.stack f st) = l.map m.stack :=
            List.map_congr_left hsame
          have hvisit : l.flatMap (visit { m with stack := Function.update m.stack f st }) =
              l.flatMap (visit m) := by
            refine List.flatMap_congr fun g hg => ?_
            show [Teardown.stack g, .release (Function.update m.stack f st g), .next g] = _
            rw [hsame g hg]
            rfl
          rw [← hmap] at hok₁
          obtain ⟨alloc', p', m', hrest, hok'⟩ := ih
            (m := { m with stack := Function.update m.stack f st }) hl.2 hnd
            (Nat.le_of_succ_le_succ hfuel) hok₁
          rw [hvisit, ← hl.1] at hrest
          refine ⟨alloc', p', m', ?_, hok'⟩
          simp only [List.head?_cons, release_live, heq, hrest]
          rfl

/-! ## §4. The promise. -/

/-- The regions given back to libc. -/
def Teardown.freed : Teardown → Option Region
  | .backing (.free a n) => some (a, n)
  | _ => none

/-- The stack given back to the pool. -/
def Teardown.released : Teardown → Option Stack
  | .release st => some st
  | _ => none

/-- The fiber struct that is read. -/
def Teardown.read : Teardown → Option Nat
  | .stack f | .next f => some f
  | _ => none

/-- **What a teardown owes.** -/
structure TeardownOk (T : Target) (L : Libc γ) (M : Mmu ν) (out : γ → List Region) (page : Nat)
    (S : Sys T γ (GrowableStackAllocator × Proc ν) κ) : Prop where
  /-- The stack of every live fiber is released once, and no other. -/
  released : (cfiber_reactor_destroy T L M page S.r).trace.filterMap Teardown.released =
    S.alive.map S.r.mem.stack
  fibers : S.alive.Nodup ∧ ∀ f, f ∈ S.alive ↔ S.r.mem.state f ≠ .FB_FREE
  distinct : (S.alive.map S.r.mem.stack).Nodup
  /-- `ASSERT(leaked == 0)`. -/
  leaked : (cfiber_reactor_destroy T L M page S.r).alloc.active_count = 0 ∧
    (cfiber_reactor_destroy T L M page S.r).leaked = 0
  /-- Every region of the fiber pool goes back once, and each block lies in one. -/
  blocks : ((cfiber_reactor_destroy T L M page S.r).trace.filterMap Teardown.freed).Perm
    (regions S.r.fibers)
  apart : (regions S.r.fibers).Pairwise Apart
  covered : ∀ p, IsBlock S.r.fibers p →
    ∃ r ∈ regions S.r.fibers, r.1 ≤ p ∧ p + S.r.fibers.block_size ≤ r.1 + r.2
  empty : out (cfiber_reactor_destroy T L M page S.r).libc = []
  /-- A descriptor is not read again once its stack is released. -/
  stack_read : ∀ {pre post : List Teardown} {f : Nat},
    (cfiber_reactor_destroy T L M page S.r).trace =
      pre ++ .release (S.r.mem.stack f) :: post → f ∈ S.alive → Teardown.stack f ∉ post
  /-- No fiber struct is read once a region has gone back. -/
  block_read : ∀ {pre post : List Teardown} {r : Region},
    (cfiber_reactor_destroy T L M page S.r).trace = pre ++ .backing (.free r.1 r.2) :: post →
      post.filterMap Teardown.read = []

theorem filterMap_visits {α : Type} (g : Teardown → Option α) (m : FiberMem) (l : List Nat) :
    (l.flatMap (visit m)).filterMap g =
      l.flatMap fun f => [.stack f, .release (m.stack f), .next f].filterMap g := by
  induction l with
  | nil => rfl
  | cons f l ih =>
      rw [List.flatMap_cons, List.filterMap_append, ih, List.flatMap_cons]
      rfl

/-- **The whole trace**: the live fibers one after the other, then the regions of the pool. -/
theorem cfiber_reactor_destroy_spec (HL : LibcOk T L out good) (HM : MmuOk T M Mapped sane)
    {S : Sys T γ (GrowableStackAllocator × Proc ν) κ} {q : List Nat} (hok : Ok out good S q)
    (hst : Stocked T Mapped sane page S) :
    ∃ frees : List Region, frees.Perm (regions S.r.fibers) ∧
      (cfiber_reactor_destroy T L M page S.r).trace =
        S.alive.flatMap (visit S.r.mem) ++ frees.map (fun r => Teardown.backing (.free r.1 r.2)) ∧
      (cfiber_reactor_destroy T L M page S.r).alloc.active_count = 0 ∧
      (cfiber_reactor_destroy T L M page S.r).leaked = 0 ∧
      out (cfiber_reactor_destroy T L M page S.r).libc = [] := by
  obtain ⟨as, fs, hrep⟩ := hok.pool.rep
  have hlinks := hok.core.links
  have hfuel := live_length_le hlinks.nodup fun p hp => (hok.pool.live p).mpr hp
  obtain ⟨alloc, p, m, heq, hpool⟩ := release_live_spec HM S.alive hlinks.links.linked hlinks.nodup hfuel hst
  rw [← hlinks.head] at heq
  obtain ⟨frees, hperm, hdestroy⟩ :=
    cfiber_multislab_destroy_recorded (zeroing L) hrep (m, S.r.libc)
  have hempty := (cfiber_multislab_destroy_spec (zeroing_honest HL) hrep
    (c := (m, S.r.libc)) ⟨hok.pool.own.perm, hok.pool.own.apart, hok.pool.own.fits⟩
    hok.pool.sound).2
  have hactive : alloc.active_count = 0 := hpool.active
  have hres : cfiber_reactor_destroy T L M page S.r =
      { alloc := alloc
        leaked := if alloc.active_count ≠ 0 then -1 else 0
        proc := growable_allocator_cleanup M alloc p
        libc := (cfiber_multislab_destroy (zeroing L) S.r.fibers (m, S.r.libc)).2.2
        trace := S.alive.flatMap (visit S.r.mem) ++
          frees.map fun r => Teardown.backing (.free r.1 r.2) } := by
    simp only [cfiber_reactor_destroy, heq, hdestroy, List.map_map]
    rfl
  rw [hres]
  exact ⟨frees, hperm, rfl, hactive, if_neg (not_not.mpr hactive), hempty⟩

/-- Splitting a trace at an element that only the first part can have. -/
theorem split_left {α : Type*} {x : α} {l l' pre post : List α} (h : l ++ l' = pre ++ x :: post)
    (hx : x ∉ l') : ∃ rest, l = pre ++ x :: rest ∧ post = rest ++ l' := by
  rcases List.append_eq_append_iff.mp h with ⟨c, rfl, hc⟩ | ⟨c, rfl, hc⟩
  · -- `x` would be in the second part
    have hmem : x ∈ l' := by
      rw [hc]
      exact List.mem_append_right _ List.mem_cons_self
    exact absurd hmem hx
  · cases c with
    | nil =>
        rw [List.nil_append] at hc
        exact absurd (hc ▸ List.mem_cons_self) hx
    | cons y c =>
        obtain ⟨rfl, rfl⟩ := List.cons.inj hc
        exact ⟨c, rfl, rfl⟩

/-- Splitting a trace at an element that only the second part can have. -/
theorem split_right {α : Type*} {x : α} {l l' pre post : List α} (h : l ++ l' = pre ++ x :: post)
    (hx : x ∉ l) : ∃ rest, l' = rest ++ x :: post ∧ pre = l ++ rest := by
  rcases List.append_eq_append_iff.mp h with ⟨c, rfl, hc⟩ | ⟨c, rfl, hc⟩
  · exact ⟨c, hc, rfl⟩
  · cases c with
    | nil => exact ⟨[], hc.symm, by simp⟩
    | cons y c =>
        obtain ⟨rfl, -⟩ := List.cons.inj hc
        exact absurd (List.mem_append_right _ List.mem_cons_self) hx

theorem mem_visits {m : FiberMem} {l : List Nat} {x : Teardown} :
    x ∈ l.flatMap (visit m) ↔
      ∃ f ∈ l, x = .stack f ∨ x = .release (m.stack f) ∨ x = .next f := by
  rw [List.mem_flatMap]
  simp only [visit, List.mem_cons, List.not_mem_nil, or_false]

/-- On the walk no descriptor is read after its stack is released. -/
theorem visits_once {m : FiberMem} {l : List Nat} (hnd : l.Nodup) (hst : (l.map m.stack).Nodup)
    {pre post : List Teardown} {f : Nat} (hf : f ∈ l)
    (h : l.flatMap (visit m) = pre ++ .release (m.stack f) :: post) : Teardown.stack f ∉ post := by
  obtain ⟨l₁, l₂, rfl⟩ := List.append_of_mem hf
  rw [List.map_append, List.map_cons, List.nodup_append] at hst
  obtain ⟨-, hst₂, hst₁⟩ := hst
  have hf₂ : f ∉ l₂ := (List.nodup_cons.mp (List.nodup_append.mp hnd).2.1).1
  -- the release stands in `f`'s own visit
  have hleft : Teardown.release (m.stack f) ∉ l₁.flatMap (visit m) := by
    rw [mem_visits]
    rintro ⟨g, hg, hx | hx | hx⟩
    · exact absurd hx (by simp)
    · exact hst₁ _ (List.mem_map_of_mem hg) _ List.mem_cons_self (Teardown.release.inj hx).symm
    · exact absurd hx (by simp)
  have hright : Teardown.release (m.stack f) ∉ l₂.flatMap (visit m) := by
    rw [mem_visits]
    rintro ⟨g, hg, hx | hx | hx⟩
    · exact absurd hx (by simp)
    · exact (List.nodup_cons.mp hst₂).1 (Teardown.release.inj hx ▸ List.mem_map_of_mem hg)
    · exact absurd hx (by simp)
  rw [List.flatMap_append, List.flatMap_cons] at h
  obtain ⟨pre', h, -⟩ := split_right h hleft
  obtain ⟨tail, hvisit, rfl⟩ := split_left h hright
  have htail : tail = [.next f] := by
    unfold visit at hvisit
    rcases pre' with _ | ⟨x, _ | ⟨y, _ | ⟨z, pre'⟩⟩⟩
    · exact absurd (List.cons.inj hvisit).1 (by simp)
    · exact (List.cons.inj (List.cons.inj hvisit).2).2.symm
    · have hthird := (List.cons.inj (List.cons.inj (List.cons.inj hvisit).2).2).1
      exact absurd hthird (by simp)
    · have hlen := congrArg List.length hvisit
      simp at hlen
  rw [htail]
  intro hmem
  rcases List.mem_append.mp hmem with hmem | hmem
  · exact absurd hmem (by simp)
  · obtain ⟨g, hg, hx | hx | hx⟩ := mem_visits.mp hmem
    · obtain rfl := Teardown.stack.inj hx
      exact hf₂ hg
    · exact absurd hx (by simp)
    · exact absurd hx (by simp)

/-- **Teardown.**  Whatever a reactor went through, its destruction gives back every stack and every
block once, with nothing outstanding and nothing read too late. -/
theorem teardown_ok (HL : LibcOk T L out good) (HM : MmuOk T M Mapped sane)
    {r : Reactor T γ (GrowableStackAllocator × Proc ν) κ} (hr : Fresh T out good r)
    {heap : Bool × Bool} {args : GrowableArgs} {p : Proc ν} (hsane : sane p.env) (hmade : p.made = [])
    (hargs : args.cache_capacity < 2 ^ T.WORD_BITS)
    (hcreate : cfiber_growable_stack_allocator_create T M page heap args p =
      (some r.stack_pool.1, r.stack_pool.2))
    {as : List (Action δ)} {S : Sys T γ (GrowableStackAllocator × Proc ν) κ}
    (h : exec (step L (growable T M page) K) (boot r) as = some S) :
    TeardownOk T L M out page S := by
  have hstart : Stocked T Mapped sane page (boot r) := by
    rcases PoolOk.create HM hsane hmade hargs hcreate with ⟨hnone, -⟩ | ⟨alloc, hsome, hpool, -⟩
    · exact absurd hnone (by simp)
    · obtain rfl := Option.some.inj hsome
      exact hpool
  obtain ⟨⟨q, hok⟩, hst⟩ := exec_stocked HL HM (boot_ok hr) hstart h
  obtain ⟨frees, hperm, htrace, hactive, hleaked, hempty⟩ := cfiber_reactor_destroy_spec HL HM hok hst
  obtain ⟨as', fs, hrep⟩ := hok.pool.rep
  have hdistinct : (S.alive.map S.r.mem.stack).Nodup :=
    (List.nodup_append.mp hst.held.nodup).2.1
  refine ⟨?released, ⟨hok.core.roster.nodup, hok.core.roster.live⟩, hdistinct, ⟨hactive, hleaked⟩,
    ?blocks, hok.pool.own.apart, ?covered, hempty, ?stack_read, ?block_read⟩
  case released =>
    have hnone : (frees.map fun r => Teardown.backing (.free r.1 r.2)).filterMap
        Teardown.released = [] := by
      rw [List.filterMap_map, List.filterMap_eq_nil_iff]
      exact fun r _ => rfl
    rw [htrace, List.filterMap_append, filterMap_visits, hnone, List.append_nil,
      List.map_eq_flatMap]
    rfl
  case blocks =>
    have hall : (frees.map fun r => Teardown.backing (.free r.1 r.2)).filterMap
        Teardown.freed = frees := by
      rw [List.filterMap_map]
      exact List.filterMap_some
    have hnone : (S.alive.flatMap (visit S.r.mem)).filterMap Teardown.freed = [] := by
      rw [filterMap_visits, List.flatMap_eq_nil_iff]
      exact fun f _ => rfl
    rw [htrace, List.filterMap_append, hnone, hall]
    exact hperm
  case covered =>
    rintro p ⟨n, hn, i, hi, rfl⟩
    obtain ⟨hlo, hhi⟩ := (hrep.slab n hn).block_range hrep.config hi
    exact ⟨(S.r.fibers.nodes.raw_memory n, S.r.fibers.slab_memory_size),
      List.mem_flatMap.mpr ⟨n, hn, List.mem_cons_self⟩, hlo, hhi⟩
  case stack_read =>
    -- the release is among the visits, and a fiber is visited once
    intro pre post f heq hf
    rw [htrace] at heq
    have hno : Teardown.release (S.r.mem.stack f) ∉
        frees.map fun r => Teardown.backing (.free r.1 r.2) := by simp
    obtain ⟨rest, hvisits, rfl⟩ := split_left heq hno
    intro hmem
    rcases List.mem_append.mp hmem with hmem | hmem
    · exact visits_once hok.core.roster.nodup hdistinct hf hvisits hmem
    · exact absurd hmem (by simp)
  case block_read =>
    -- the regions go back after the last visit
    intro pre post r heq
    rw [htrace] at heq
    have hno : Teardown.backing (.free r.1 r.2) ∉ S.alive.flatMap (visit S.r.mem) := by
      rw [mem_visits]
      simp
    obtain ⟨rest, hfrees, -⟩ := split_right heq hno
    refine List.filterMap_eq_nil_iff.mpr fun x hx => ?_
    have hmem : x ∈ frees.map fun r => Teardown.backing (.free r.1 r.2) := by
      rw [hfrees]
      exact List.mem_append_right _ (List.mem_cons_of_mem _ hx)
    obtain ⟨r', -, rfl⟩ := List.mem_map.mp hmem
    rfl

/-! ## §5. A reactor torn down with a fiber still parked. -/

/-- The stack pool, on a kernel that refuses the second stack. -/
def pools : Option GrowableStackAllocator × Proc Arena :=
  cfiber_growable_stack_allocator_create lp64 arena 4096 (true, true) ⟨65536, 64, 0⟩
    ⟨⟨4096, [false, false, true], []⟩, .EINVAL, []⟩

def grown : Option (Reactor lp64 (Nat × List Region) (GrowableStackAllocator × Proc Arena) Epoll) :=
  pools.1.bind fun alloc =>
    cfiber_reactor_create lp64 320 blank (64, []) (alloc, pools.2) ⟨[(3, 30), (4, 40)], []⟩ 1000

/-- One fiber returned, one spawn was refused, one fiber is parked, and `epoll_wait` failed. -/
theorem teardown_ok_epoll : ∃ r S, grown = some r ∧
    exec (step bumpLibc (growable lp64 arena 4096) epoll) (boot r)
      [.spawn, .spawn, .spawn, .run, .turn, .turn, .finish, .turn, .turn, .wait 3 1 (-1), .turn,
        .turn, .poll (.fail .EBADF)] = some S ∧ S.pc = .host ∧
      TeardownOk lp64 bumpLibc arena Prod.snd 4096 S := by
  have hsome : ((grown.bind fun r =>
      exec (step bumpLibc (growable lp64 arena 4096) epoll) (boot r)
        [.spawn, .spawn, .spawn, .run, .turn, .turn, .finish, .turn, .turn, .wait 3 1 (-1), .turn,
          .turn, .poll (.fail .EBADF)]).map Sys.pc) = some .host := by decide +kernel
  obtain ⟨S, hS, hpc⟩ := Option.map_eq_some_iff.mp hsome
  obtain ⟨r, hr, hrun⟩ := Option.bind_eq_some_iff.mp hS
  obtain ⟨alloc, ha, hc⟩ := Option.bind_eq_some_iff.mp hr
  have hfresh : Fresh lp64 Prod.snd BumpHeapOk r :=
    ⟨320, blank, (64, []), (alloc, pools.2), _, 1000, hc, fun _ => rfl,
      ⟨⟨rfl, fun _ h => absurd h List.not_mem_nil⟩, fun _ h => absurd h List.not_mem_nil,
        List.nodup_nil⟩, rfl⟩
  have hpool : r.stack_pool = (alloc, pools.2) := by
    unfold cfiber_reactor_create at hc
    split at hc
    · exact absurd hc (by simp)
    · obtain rfl := Option.some.inj hc
      rfl
  have hcreate : pools = (some r.stack_pool.1, r.stack_pool.2) := by
    rw [hpool]
    exact Prod.ext ha rfl
  exact ⟨r, S, hr, hrun, hpc, teardown_ok bumpLibc_ok arena_ok hfresh
    ⟨by decide, fun _ h => absurd h List.not_mem_nil⟩ rfl (by decide) hcreate hrun⟩

end CFiber.Ev
