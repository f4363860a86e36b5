/-
  CFiber.Stacks.Growable — stack descriptors and growable stacks (`stack.h`, `growable_stack.c`).

  A growable stack is one mapping with a guard page at its bottom.  The kernel's memory calls are a
  parameter `K : Mmu ν`; a process `Proc ν` is the kernel's state, `errno`, and a history of the
  mappings these calls made, in the order they were made.  `MmuOk` is what the kernel promises.

  `Holding page hs p` says that the mappings still there are those of the descriptors `hs`, each of
  one of them.

  Main results:

    • `Holding.create`  — a whole new stack, or none and nothing left mapped;
    • `Holding.destroy` — the stack destroyed is gone, and no other;
    • `Holding.foreign` — unmapping memory that is nobody's here changes nothing.
-/
import CFiber.Memory.MultislabRep

namespace CFiber

open CFiber.Memory

/-! ## §1. Descriptors and error numbers. -/

inductive Errno where
  | EINVAL
  | EBADF
  | ENOMEM
  | EBUSY
  | ENOENT
  | EEXIST
  | EINTR
  | EAGAIN
  | EINPROGRESS
  | ECANCELED
  | ETIMEDOUT
  | other (code : Nat)
  deriving DecidableEq, Repr

/-- `cfiber_stack_t`; a null `mem_base` is no stack. -/
structure Stack where
  mem_base : Option Nat
  usable_base : Nat
  stack_top : Nat
  total_size : Nat
  deriving DecidableEq, Repr

/-- The zeroed descriptor. -/
def Stack.null : Stack := ⟨none, 0, 0, 0⟩

/-- `cfiber_stack_usable_size`. -/
def cfiber_stack_usable_size (T : Target) (stack : Stack) : Nat :=
  T.wrap (stack.stack_top + 2 ^ T.WORD_BITS - stack.usable_base)

namespace Stacks

/-! ## §2. Memory calls. -/

/-- The kernel's answers to `mmap`, `mprotect`, `munmap` and `madvise`. -/
structure Mmu (ν : Type) where
  mmap : Nat → ν → Except Errno Nat × ν
  mprotect : Nat → Nat → ν → Option Errno × ν
  munmap : Nat → Nat → ν → ν
  madvise : Nat → Nat → ν → ν

/-- One successful `mmap`: where, how long, how much of its bottom is `PROT_NONE`, and whether it
is still there. -/
structure Mapping where
  base : Nat
  size : Nat
  guard : Nat
  mapped : Bool
  deriving DecidableEq, Repr

def Mapping.region (m : Mapping) : Region := (m.base, m.size)

/-- The kernel's state, `errno`, and the history of the mappings made. -/
structure Proc (ν : Type) where
  env : ν
  errno : Errno
  made : List Mapping

variable {T : Target} {ν : Type}

def mmap (K : Mmu ν) (n : Nat) (p : Proc ν) : Option Nat × Proc ν :=
  match K.mmap n p.env with
  | (.ok a, e) => (some a, { p with env := e, made := p.made ++ [⟨a, n, 0, true⟩] })
  | (.error err, e) => (none, { p with env := e, errno := err })

/-- `mprotect(a, n, PROT_NONE)`; `false` is the `-1` return. -/
def mprotect (K : Mmu ν) (a n : Nat) (p : Proc ν) : Bool × Proc ν :=
  match K.mprotect a n p.env with
  | (none, e) =>
    (true, { p with
      env := e
      made := p.made.map fun m => if m.mapped ∧ m.base = a then { m with guard := n } else m })
  | (some err, e) => (false, { p with env := e, errno := err })

/-- What `munmap(a, n)` does to a mapping. -/
def Mapping.unmap (a n : Nat) (m : Mapping) : Mapping :=
  if m.mapped ∧ m.region = (a, n) then { m with mapped := false } else m

def munmap (K : Mmu ν) (a n : Nat) (p : Proc ν) : Proc ν :=
  { p with env := K.munmap a n p.env, made := p.made.map (Mapping.unmap a n) }

/-! ## §3. Growable stacks. -/

/-- `page` is `page_size()`: zero if it cannot be queried. -/
def cfiber_growable_stack_create (T : Target) (K : Mmu ν) (page max_size : Nat) (p : Proc ν) :
    Stack × Proc ν :=
  if page = 0 then (.null, p)
  else if max_size = 0 ∨ max_size &&& (page - 1) ≠ 0 ∨ max_size > 2 ^ T.WORD_BITS - 1 - page then
    (.null, { p with errno := .EINVAL })
  else
    let total_vma_size := max_size + page
    match mmap K total_vma_size p with
    | (none, p) => (.null, p)
    | (some vma_start, p) =>
      match mprotect K vma_start page p with
      | (false, p) =>
        let saved := p.errno
        let p := munmap K vma_start total_vma_size p
        (.null, { p with errno := saved })
      | (true, p) =>
        (⟨some vma_start, vma_start + page, vma_start + total_vma_size, total_vma_size⟩, p)

/-- The descriptor comes back zeroed. -/
def cfiber_growable_stack_destroy (K : Mmu ν) (stack : Stack) (p : Proc ν) : Stack × Proc ν :=
  (.null, munmap K (stack.mem_base.getD 0) stack.total_size p)

/-- The top page stays warm; what lies between it and the guard goes. -/
def cfiber_growable_stack_recycle (T : Target) (K : Mmu ν) (page : Nat) (stack : Stack)
    (p : Proc ν) : Proc ν :=
  if page = 0 ∨ cfiber_stack_usable_size T stack ≤ page then p
  else
    let length := cfiber_stack_usable_size T stack - page
    { p with env := K.madvise stack.usable_base length p.env }

/-! ## §4. What the kernel promises. -/

/-- A region that is `Mapped` stays so until it, or part of it, is unmapped; a new mapping is
apart from all of them.  Refusals are not restricted. -/
structure MmuOk (T : Target) (K : Mmu ν) (Mapped : ν → Region → Prop) (good : ν → Prop) : Prop where
  mmap_ok : ∀ {n a : Nat} {v v' : ν}, good v → K.mmap n v = (.ok a, v') →
    good v' ∧ Mapped v' (a, n) ∧ 0 < a ∧ a + n < 2 ^ T.WORD_BITS ∧
      ∀ r, Mapped v r → Apart (a, n) r ∧ Mapped v' r
  mmap_error : ∀ {n : Nat} {e : Errno} {v v' : ν}, good v → K.mmap n v = (.error e, v') →
    good v' ∧ ∀ r, Mapped v r → Mapped v' r
  mprotect : ∀ {a n : Nat} {v : ν}, good v →
    good (K.mprotect a n v).2 ∧ ∀ r, Mapped v r → Mapped (K.mprotect a n v).2 r
  munmap : ∀ {a n : Nat} {v : ν}, good v →
    good (K.munmap a n v) ∧ ∀ r, Mapped v r → Apart (a, n) r → Mapped (K.munmap a n v) r
  madvise : ∀ {a n : Nat} {v : ν}, good v →
    good (K.madvise a n v) ∧ ∀ r, Mapped v r → Mapped (K.madvise a n v) r

/-! ## §5. The history. -/

/-- The mappings that are still there. -/
def Proc.live (p : Proc ν) : List Mapping := p.made.filter fun m => m.mapped

/-- The history agrees with the kernel: what it calls mapped is mapped, inside the address space
and without overlap. -/
structure ProcOk (T : Target) (Mapped : ν → Region → Prop) (good : ν → Prop) (p : Proc ν) :
    Prop where
  good : good p.env
  mapped : ∀ m ∈ p.live, Mapped p.env m.region
  fit : ∀ m ∈ p.live, 0 < m.base ∧ 0 < m.size ∧ m.base + m.size < 2 ^ T.WORD_BITS
  apart : p.live.Pairwise fun m m' => Apart m.region m'.region

variable {K : Mmu ν} {Mapped : ν → Region → Prop} {good : ν → Prop} {p p' : Proc ν}

/-- A region of positive size overlaps itself. -/
theorem apart_self {r : Region} (h : Apart r r) : r.2 = 0 := by
  unfold Apart at h
  omega

/-- **One mapping a region**: of the mappings still there, one has the given region. -/
theorem ProcOk.unique (h : ProcOk T Mapped good p) {i j : Nat} (hi : i < p.made.length)
    (hj : j < p.made.length) (hmi : p.made[i].mapped = true) (hmj : p.made[j].mapped = true)
    (heq : p.made[i].region = p.made[j].region) : i = j := by
  by_contra hne
  have hsub : p.made.Pairwise fun m m' =>
      m.mapped = true → m'.mapped = true → Apart m.region m'.region :=
    List.pairwise_filter.mp h.apart
  have hlive : p.made[i] ∈ p.live := List.mem_filter.mpr ⟨List.getElem_mem hi, hmi⟩
  have hpos : 0 < (p.made[i].region).2 := (h.fit _ hlive).2.1
  -- whichever comes first, the two would have to be apart
  have hap : Apart p.made[i].region p.made[j].region := by
    rcases Nat.lt_or_gt_of_ne hne with hlt | hgt
    · exact List.pairwise_iff_getElem.mp hsub i j hi hj hlt hmi hmj
    · exact (List.pairwise_iff_getElem.mp hsub j i hj hi hgt hmj hmi).symm
  rw [← heq] at hap
  have := apart_self hap
  omega

/-- The history only changes where the kernel's state does. -/
theorem ProcOk.env (h : ProcOk T Mapped good p) {e : ν} {err : Errno} (hg : good e)
    (hm : ∀ r, Mapped p.env r → Mapped e r) :
    ProcOk T Mapped good { p with env := e, errno := err } :=
  ⟨hg, fun m hmem => hm _ (h.mapped m hmem), h.fit, h.apart⟩

theorem live_of_made {m : Mapping} (h : p'.made = p.made ++ [m]) (hm : m.mapped = true) :
    p'.live = p.live ++ [m] := by
  unfold Proc.live
  rw [h, List.filter_append]
  simp [hm]

/-- Guarding the bottom of the mapping made last moves nothing. -/
theorem ProcOk.guarded {p₀ : Proc ν} (h : ProcOk T Mapped good p) {a n page : Nat}
    (hmade : p.made = p₀.made ++ [⟨a, n, 0, true⟩])
    (hmade' : p'.made = p₀.made ++ [⟨a, n, page, true⟩])
    (hg : good p'.env) (hkeep : ∀ r, Mapped p.env r → Mapped p'.env r) :
    ProcOk T Mapped good p' := by
  obtain ⟨-, hm, hf, ha⟩ := h
  rw [live_of_made hmade rfl] at hm hf ha
  simp only [List.forall_mem_append, List.forall_mem_singleton, List.pairwise_append] at hm hf ha
  refine ⟨hg, ?_, ?_, ?_⟩
  · rw [live_of_made hmade' rfl]
    simp only [List.forall_mem_append, List.forall_mem_singleton]
    exact ⟨fun m hmem => hkeep _ (hm.1 m hmem), hkeep _ hm.2⟩
  · rw [live_of_made hmade' rfl]
    simp only [List.forall_mem_append, List.forall_mem_singleton]
    exact hf
  · rw [live_of_made hmade' rfl]
    simp only [List.pairwise_append, List.forall_mem_singleton]
    exact ⟨ha.1, List.pairwise_singleton _ _, ha.2.2⟩

theorem filter_map_unmap (a n : Nat) (l : List Mapping) :
    (l.map (Mapping.unmap a n)).filter (fun m => m.mapped) =
      l.filter fun m => m.mapped && decide (m.region ≠ (a, n)) := by
  induction l with
  | nil => rfl
  | cons m l ih =>
      rw [List.map_cons, List.filter_cons, List.filter_cons, ih]
      unfold Mapping.unmap
      by_cases hm : m.mapped = true
      · by_cases hr : m.region = (a, n)
        · simp [hm, hr]
        · simp [hm, hr]
      · simp [hm]

/-- `munmap` takes the mappings of that region, and no other, out of those still there. -/
theorem munmap_live (a n : Nat) (p : Proc ν) :
    (munmap K a n p).live = p.live.filter fun m => decide (m.region ≠ (a, n)) := by
  unfold Proc.live munmap
  rw [filter_map_unmap, List.filter_filter]
  exact List.filter_congr fun m _ => Bool.and_comm _ _

/-- **Unmapping** a region that each of the other mappings is apart from. -/
theorem ProcOk.munmap (H : MmuOk T K Mapped good) (h : ProcOk T Mapped good p) {a n : Nat}
    (hap : ∀ m ∈ p.live, m.region ≠ (a, n) → Apart (a, n) m.region) :
    ProcOk T Mapped good (munmap K a n p) := by
  obtain ⟨hg, hkeep⟩ := H.munmap (a := a) (n := n) h.good
  have hsub : (Stacks.munmap K a n p).live.Sublist p.live := by
    rw [munmap_live]
    exact List.filter_sublist
  refine ⟨hg, ?_, fun m hm => h.fit m (hsub.subset hm), h.apart.sublist hsub⟩
  intro m hm
  rw [munmap_live] at hm
  obtain ⟨hlive, hne⟩ := List.mem_filter.mp hm
  have hne : m.region ≠ (a, n) := of_decide_eq_true hne
  exact hkeep _ (h.mapped m hlive) (hap m hlive hne)

/-! ## §6. Making and unmaking a stack. -/

/-- The descriptor of a whole stack: the guard page at the bottom, `max_size` bytes above it. -/
def whole (page max_size b : Nat) : Stack :=
  ⟨some b, b + page, b + (max_size + page), max_size + page⟩

/-- The mapping such a descriptor stands for. -/
def mappingOf (page : Nat) (stack : Stack) : Mapping :=
  ⟨stack.mem_base.getD 0, stack.total_size, page, true⟩

theorem map_eq_self {α : Type*} {f : α → α} {l : List α} (h : ∀ x ∈ l, f x = x) : l.map f = l :=
  (List.map_congr_left h).trans (List.map_id l)

/-- A successful `mmap`. -/
theorem mmap_spec (H : MmuOk T K Mapped good) (h : ProcOk T Mapped good p) {n a : Nat} (hn : 0 < n)
    (heq : mmap K n p = (some a, p')) :
    ProcOk T Mapped good p' ∧ p'.made = p.made ++ [⟨a, n, 0, true⟩] ∧ p'.errno = p.errno ∧
      ∀ m ∈ p.live, Apart (a, n) m.region := by
  unfold mmap at heq
  split at heq
  · rename_i b e hmm
    obtain ⟨hab, rfl⟩ := Prod.mk.inj heq
    obtain rfl : b = a := Option.some.inj hab
    obtain ⟨hg, hnew, hpos, hfit, hold⟩ := H.mmap_ok h.good hmm
    have hap : ∀ m ∈ p.live, Apart (b, n) m.region := fun m hm => (hold _ (h.mapped m hm)).1
    have hlive : Proc.live ⟨e, p.errno, p.made ++ [⟨b, n, 0, true⟩]⟩ = p.live ++ [⟨b, n, 0, true⟩] :=
      live_of_made (p := p) rfl rfl
    refine ⟨⟨hg, ?_, ?_, ?_⟩, rfl, rfl, hap⟩
    · intro m hm
      rw [hlive] at hm
      rcases List.mem_append.mp hm with hm | hm
      · exact (hold _ (h.mapped m hm)).2
      · obtain rfl : m = ⟨b, n, 0, true⟩ := by simpa using hm
        exact hnew
    · intro m hm
      rw [hlive] at hm
      rcases List.mem_append.mp hm with hm | hm
      · exact h.fit m hm
      · obtain rfl : m = ⟨b, n, 0, true⟩ := by simpa using hm
        exact ⟨hpos, hn, hfit⟩
    · rw [hlive]
      refine List.pairwise_append.mpr ⟨h.apart, by simp, ?_⟩
      intro m hm m' hm'
      obtain rfl : m' = ⟨b, n, 0, true⟩ := by simpa using hm'
      exact (hap m hm).symm
  · exact absurd (congrArg Prod.fst heq) (by simp)

/-- A region of positive size that starts where another does is not apart from it. -/
theorem base_ne_of_apart {a n b k : Nat} (h : Apart (a, n) (b, k)) (hn : 0 < n) (hk : 0 < k) :
    b ≠ a := by
  unfold Apart at h
  simp only at h
  omega

/-- The guard page of the mapping made last. -/
theorem mprotect_last (h : ∀ m ∈ p.live, 0 < m.size) {a n : Nat} (hn : 0 < n)
    (hmade : p'.made = p.made ++ [⟨a, n, 0, true⟩])
    (hap : ∀ m ∈ p.live, Apart (a, n) m.region) (page : Nat) :
    (p'.made.map fun m => if m.mapped ∧ m.base = a then { m with guard := page } else m) =
      p.made ++ [⟨a, n, page, true⟩] := by
  rw [hmade, List.map_append]
  have hold : (p.made.map fun m => if m.mapped ∧ m.base = a then { m with guard := page } else m) =
      p.made := by
    refine map_eq_self fun m hm => if_neg ?_
    rintro ⟨hmm, hb⟩
    have hlive : m ∈ p.live := List.mem_filter.mpr ⟨hm, hmm⟩
    exact base_ne_of_apart (hap m hlive) hn (h m hlive) hb
  rw [hold]
  simp

/-- Unmapping the mapping made last. -/
theorem unmap_last (h : ∀ m ∈ p.live, 0 < m.size) {a n : Nat} (hn : 0 < n)
    (hmade : p'.made = p.made ++ [⟨a, n, 0, true⟩])
    (hap : ∀ m ∈ p.live, Apart (a, n) m.region) :
    p'.made.map (Mapping.unmap a n) = p.made ++ [⟨a, n, 0, false⟩] := by
  rw [hmade, List.map_append]
  have hold : p.made.map (Mapping.unmap a n) = p.made := by
    refine map_eq_self fun m hm => if_neg ?_
    rintro ⟨hmm, hr⟩
    have hlive : m ∈ p.live := List.mem_filter.mpr ⟨hm, hmm⟩
    exact base_ne_of_apart (hap m hlive) hn (h m hlive) (congrArg Prod.fst hr)
  rw [hold]
  simp [Mapping.unmap, Mapping.region]

/-- **A new stack** is a mapping of its own, guard page included; where there is none, nothing the
call made is still mapped. -/
theorem cfiber_growable_stack_create_spec (H : MmuOk T K Mapped good) (h : ProcOk T Mapped good p)
    {page max_size : Nat} {stack : Stack}
    (heq : cfiber_growable_stack_create T K page max_size p = (stack, p')) :
    ProcOk T Mapped good p' ∧
      ((stack = .null ∧ ∃ dead, p'.made = p.made ++ dead ∧ ∀ m ∈ dead, m.mapped = false) ∨
        ∃ b, stack = whole page max_size b ∧ 0 < page ∧ 0 < max_size ∧
          p'.made = p.made ++ [⟨b, max_size + page, page, true⟩]) := by
  have hsize : ∀ m ∈ p.live, 0 < m.size := fun m hm => (h.fit m hm).2.1
  unfold cfiber_growable_stack_create at heq
  split_ifs at heq with hpage hbad
  · obtain ⟨rfl, rfl⟩ := Prod.mk.inj heq
    exact ⟨h, Or.inl ⟨rfl, [], by simp, by simp⟩⟩
  · obtain ⟨rfl, rfl⟩ := Prod.mk.inj heq
    exact ⟨h.env h.good fun _ hr => hr, Or.inl ⟨rfl, [], by simp, by simp⟩⟩
  · have hmax : 0 < max_size := by omega
    have hn : 0 < max_size + page := by omega
    dsimp only at heq
    rcases hmm : mmap K (max_size + page) p with ⟨_ | a, p₁⟩
    · -- `mmap` failed
      rw [hmm] at heq
      obtain ⟨rfl, rfl⟩ := Prod.mk.inj heq
      unfold mmap at hmm
      split at hmm
      · exact absurd (congrArg Prod.fst hmm) (by simp)
      · rename_i err e hK
        obtain ⟨-, rfl⟩ := Prod.mk.inj hmm
        obtain ⟨hg, hkeep⟩ := H.mmap_error h.good hK
        exact ⟨h.env hg hkeep, Or.inl ⟨rfl, [], by simp, by simp⟩⟩
    · rw [hmm] at heq
      obtain ⟨h₁, hmade, -, hap⟩ := mmap_spec H h hn hmm
      obtain ⟨hg, hkeep⟩ := H.mprotect (a := a) (n := page) h₁.good
      have hlive₁ : p₁.live = p.live ++ [⟨a, max_size + page, 0, true⟩] := live_of_made hmade rfl
      have hguard := mprotect_last hsize hn hmade hap page
      rcases hmp : K.mprotect a page p₁.env with ⟨_ | err, e⟩
      · -- the guard page is set
        rw [hmp] at hg hkeep
        simp only [mprotect, hmp] at heq
        obtain ⟨rfl, rfl⟩ := Prod.mk.inj heq
        refine ⟨?_, Or.inr ⟨a, rfl, by omega, hmax, hguard⟩⟩
        exact h₁.guarded hmade hguard hg hkeep
      · -- the guard page could not be set: the mapping goes
        rw [hmp] at hg hkeep
        simp only [mprotect, hmp] at heq
        obtain ⟨rfl, rfl⟩ := Prod.mk.inj heq
        have h₂ : ProcOk T Mapped good { p₁ with env := e, errno := err } := h₁.env hg hkeep
        have hothers : ∀ m ∈ Proc.live { p₁ with env := e, errno := err },
            m.region ≠ (a, max_size + page) → Apart (a, max_size + page) m.region := by
          intro m hm hne
          rcases List.mem_append.mp (hlive₁ ▸ hm : m ∈ p.live ++ _) with hm | hm
          · exact hap m hm
          · obtain rfl : m = ⟨a, max_size + page, 0, true⟩ := by simpa using hm
            exact absurd rfl hne
        have h₃ := h₂.munmap H hothers
        exact ⟨h₃.env h₃.good fun _ hr => hr, Or.inl ⟨rfl,
          [⟨a, max_size + page, 0, false⟩], unmap_last hsize hn hmade hap, by simp⟩⟩

/-! ## §7. Holders. -/

/-- The mappings still there are those of the descriptors `hs`, each of one of them. -/
structure Holding (T : Target) (Mapped : ν → Region → Prop) (good : ν → Prop) (page : Nat)
    (hs : List Stack) (p : Proc ν) : Prop where
  proc : ProcOk T Mapped good p
  live : p.live.Perm (hs.map (mappingOf page))

variable {page : Nat} {hs rest : List Stack} {stack : Stack}

@[simp] theorem mappingOf_whole (page max_size b : Nat) :
    mappingOf page (whole page max_size b) = ⟨b, max_size + page, page, true⟩ := rfl

theorem Holding.perm (h : Holding T Mapped good page hs p) (hp : hs.Perm rest) :
    Holding T Mapped good page rest p := ⟨h.proc, h.live.trans (hp.map _)⟩

theorem Holding.mem_live (h : Holding T Mapped good page hs p) (hs' : stack ∈ hs) :
    mappingOf page stack ∈ p.live := h.live.mem_iff.mpr (List.mem_map_of_mem hs')

/-- **No two holders share a byte.** -/
theorem Holding.apart (h : Holding T Mapped good page hs p) :
    hs.Pairwise fun s s' => Apart (mappingOf page s).region (mappingOf page s').region := by
  have hsymm : ∀ {m m' : Mapping}, Apart m.region m'.region → Apart m'.region m.region :=
    fun hap => hap.symm
  have hmap : (hs.map (mappingOf page)).Pairwise fun m m' => Apart m.region m'.region :=
    h.live.pairwise h.proc.apart hsymm
  rw [List.pairwise_map] at hmap
  exact hmap

theorem Holding.nodup (h : Holding T Mapped good page hs p) : hs.Nodup := by
  refine h.apart.imp_of_mem ?_
  rintro s s' hs - hap rfl
  have hsize := (h.proc.fit _ (h.mem_live hs)).2.1
  have hzero : (mappingOf page s).size = 0 := apart_self hap
  omega

/-- There are fewer holders than addresses. -/
theorem Holding.few (h : Holding T Mapped good page hs p) : hs.length < 2 ^ T.WORD_BITS := by
  have hlen : p.live.length = hs.length := by rw [h.live.length_eq, List.length_map]
  have hnd : (p.live.map Mapping.base).Nodup := by
    rw [List.Nodup, List.pairwise_map]
    refine h.proc.apart.imp_of_mem ?_
    intro m m' hm hm' hap hb
    exact base_ne_of_apart (a := m.base) (n := m.size) (b := m'.base) (k := m'.size) hap
      (h.proc.fit m hm).2.1 (h.proc.fit m' hm').2.1 hb.symm
  have hsub : p.live.map Mapping.base ⊆ List.range (2 ^ T.WORD_BITS - 1) := by
    intro b hb
    obtain ⟨m, hm, rfl⟩ := List.mem_map.mp hb
    have := h.proc.fit m hm
    exact List.mem_range.mpr (by omega)
  have hle := (hnd.subperm hsub).length_le
  rw [List.length_map, List.length_range, hlen] at hle
  have := Nat.two_pow_pos T.WORD_BITS
  omega

/-- **A new holder**, or none. -/
theorem Holding.create (H : MmuOk T K Mapped good) (h : Holding T Mapped good page hs p)
    {max_size : Nat} (heq : cfiber_growable_stack_create T K page max_size p = (stack, p')) :
    (stack = .null ∧ Holding T Mapped good page hs p') ∨
      ∃ b, stack = whole page max_size b ∧ 0 < page ∧ 0 < max_size ∧
        Holding T Mapped good page (stack :: hs) p' := by
  obtain ⟨hproc, ⟨rfl, dead, hmade, hdead⟩ | ⟨b, rfl, hpage, hmax, hmade⟩⟩ :=
    cfiber_growable_stack_create_spec H h.proc heq
  · left
    refine ⟨rfl, hproc, ?_⟩
    have hlive : p'.live = p.live := by
      have hnil : dead.filter (fun m => m.mapped) = [] :=
        List.filter_eq_nil_iff.mpr fun m hm => by simp [hdead m hm]
      unfold Proc.live
      rw [hmade, List.filter_append, hnil, List.append_nil]
    rw [hlive]
    exact h.live
  · right
    refine ⟨b, rfl, hpage, hmax, hproc, ?_⟩
    rw [live_of_made hmade rfl]
    exact (List.perm_append_singleton _ _).trans (h.live.cons _)

/-- **A holder's stack is unmapped**; the others keep theirs. -/
theorem Holding.destroy (H : MmuOk T K Mapped good)
    (h : Holding T Mapped good page (stack :: rest) p) :
    Holding T Mapped good page rest (cfiber_growable_stack_destroy K stack p).2 := by
  obtain ⟨hfirst, -⟩ := List.pairwise_cons.mp h.apart
  have hown := h.proc.fit _ (h.mem_live List.mem_cons_self)
  -- the other mappings are apart from this one, hence not it
  have hother : ∀ m ∈ rest.map (mappingOf page), Apart (mappingOf page stack).region m.region := by
    intro m hm
    obtain ⟨s, hs, rfl⟩ := List.mem_map.mp hm
    exact hfirst s hs
  have hne : ∀ m ∈ rest.map (mappingOf page), m.region ≠ (mappingOf page stack).region := by
    intro m hm heq
    have hself := hother m hm
    rw [heq] at hself
    have hzero : (mappingOf page stack).size = 0 := apart_self hself
    omega
  refine ⟨h.proc.munmap H ?_, ?_⟩
  · intro m hm hm'
    rcases List.mem_cons.mp (h.live.mem_iff.mp hm) with rfl | hmem
    · exact absurd rfl hm'
    · exact hother m hmem
  · show (munmap K _ _ p).live.Perm _
    rw [munmap_live]
    refine (h.live.filter _).trans ?_
    rw [List.map_cons, List.filter_cons_of_neg (by simp [Mapping.region, mappingOf])]
    have hkeep := List.filter_eq_self.mpr fun m hm => decide_eq_true (hne m hm)
    exact List.Perm.of_eq hkeep

/-- **Foreign memory is unmapped**: nobody here notices. -/
theorem Holding.foreign (H : MmuOk T K Mapped good) (h : Holding T Mapped good page hs p)
    (hne : ∀ m ∈ p.live, m.size ≠ stack.total_size)
    (hap : ∀ m ∈ p.live, Apart (mappingOf page stack).region m.region) :
    Holding T Mapped good page hs (cfiber_growable_stack_destroy K stack p).2 := by
  refine ⟨h.proc.munmap H fun m hm _ => hap m hm, ?_⟩
  show (munmap K _ _ p).live.Perm _
  rw [munmap_live, List.filter_eq_self.mpr]
  · exact h.live
  · intro m hm
    refine decide_eq_true fun hr => hne m hm ?_
    exact congrArg Prod.snd hr

theorem Holding.recycle (H : MmuOk T K Mapped good) (h : Holding T Mapped good page hs p)
    (stack : Stack) :
    Holding T Mapped good page hs (cfiber_growable_stack_recycle T K page stack p) := by
  unfold cfiber_growable_stack_recycle
  split_ifs
  · exact h
  · obtain ⟨hg, hkeep⟩ := H.madvise (a := stack.usable_base)
      (n := cfiber_stack_usable_size T stack - page) h.proc.good
    exact ⟨h.proc.env hg hkeep, h.live⟩

end Stacks

end CFiber
