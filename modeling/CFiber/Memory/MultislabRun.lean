/-
  CFiber.Memory.MultislabRun — the multislab under every sequence of calls.

  A client allocates blocks and releases blocks it holds.  `Sound` is the invariant of such a run:
  the pointer structure is represented, every outstanding region belongs to a node, and the live
  blocks are exactly the ones the client holds.

  `MultislabInv` spells out what the structure promises to its callers, counters included.  The
  counters are `uint32_t` and `max_slabs == 0` means unlimited growth, so the promise holds
  exactly while fewer than `2 ^ 32` slabs exist (`multislab_inv_iff`).
-/
import CFiber.Base.Run
import CFiber.Memory.MultislabRelease
import Mathlib.Data.Finset.Image

namespace CFiber.Memory

open CFiber.Base

variable {T : Target} {γ : Type}

/-! ## §1. Runs of calls. -/

/-- The multislab, the allocator's state, and the blocks the client holds. -/
structure Client (T : Target) (γ : Type) where
  ms : Multislab T
  ctx : γ
  live : List Nat

inductive Call where
  | alloc
  | release (p : Nat)

/-- One call; only a block the client holds may be released. -/
def Client.step (B : Backing γ) (s : Client T γ) : Call → Option (Client T γ)
  | .alloc =>
    match cfiber_multislab_alloc B s.ms s.ctx with
    | (some p, ms, c) => some ⟨ms, c, p :: s.live⟩
    | (none, ms, c) => some ⟨ms, c, s.live⟩
  | .release p =>
    if p ∈ s.live then
      let (ms, c) := cfiber_multislab_release B s.ms p s.ctx
      some ⟨ms, c, s.live.erase p⟩
    else none

/-- The invariant of a run. -/
structure Sound (out : γ → List Region) (good : γ → Prop) (s : Client T γ) : Prop where
  rep : ∃ as fs, Rep s.ms as fs
  own : Own out s.ms s.ctx
  good : good s.ctx
  nodup : s.live.Nodup
  live : ∀ p, p ∈ s.live ↔ Live s.ms p

theorem Sound.start {out : γ → List Region} {good : γ → Prop} {block_size : Nat}
    {blocks_per_slab max_slabs reserve : UInt32} {ms : Multislab T} {c : γ}
    (hinit : cfiber_multislab_init_ext T block_size blocks_per_slab max_slabs reserve = some ms)
    (hg : good c) (hout : out c = []) : Sound out good (⟨ms, c, []⟩ : Client T γ) := by
  obtain ⟨hrep, hdom, -⟩ := cfiber_multislab_init_ext_spec hinit
  have hregions : regions ms = [] := by simp [regions, hdom]
  refine ⟨⟨_, _, hrep⟩, ⟨?_, ?_, ?_⟩, hg, List.nodup_nil, ?_⟩
  · rw [hout, hregions]
  · simp [hregions]
  · simp [hregions]
  · intro p
    simp [Live, hdom]

/-- **Every call keeps the invariant.** -/
theorem Sound.step {B : Backing γ} {out : γ → List Region} {good : γ → Prop}
    (H : Honest T B out good) {s s' : Client T γ} {call : Call} (h : Sound out good s)
    (hstep : s.step B call = some s') : Sound out good s' := by
  obtain ⟨⟨as, fs, hrep⟩, hown, hgood, hnodup, hlive⟩ := h
  cases call with
  | alloc =>
      rcases cfiber_multislab_alloc_spec H hrep hown hgood with
        ⟨p, ms', c', heq, hg', ho', hrep', hA⟩ | ⟨ms', c', heq, hg', ho', hrep', hr, -⟩
      · simp only [Client.step, heq, Option.some.injEq] at hstep
        subst hstep
        refine ⟨hrep', ho', hg', List.nodup_cons.mpr ⟨?_, hnodup⟩, fun q => ?_⟩
        · rw [hlive]; exact hA.fresh
        · rw [List.mem_cons, hA.live, hlive]
      · simp only [Client.step, heq, Option.some.injEq] at hstep
        subst hstep
        exact ⟨hrep', ho', hg', hnodup, fun q => by rw [hr.live]; exact hlive q⟩
  | release p =>
      simp only [Client.step] at hstep
      split_ifs at hstep with hp
      obtain ⟨ms', c', heq, hg', ho', hrep', hR⟩ :=
        cfiber_multislab_release_spec H hrep hown hgood ((hlive p).mp hp)
      simp only [heq, Option.some.injEq] at hstep
      subst hstep
      refine ⟨hrep', ho', hg', hnodup.erase p, fun q => ?_⟩
      rw [hnodup.mem_erase_iff, hR.live, hlive, and_comm]

theorem Sound.run {B : Backing γ} {out : γ → List Region} {good : γ → Prop}
    (H : Honest T B out good) {s s' : Client T γ} {calls : List Call} (h : Sound out good s)
    (hrun : exec (Client.step B) s calls = some s') : Sound out good s' :=
  exec_inv (Sound out good) (fun _ _ _ hs hstep => hs.step H hstep) h hrun

/-! ## §2. What the multislab promises. -/

/-- `p` lies in the slab memory of node `n`. -/
def inside (ms : Multislab T) (n p : Nat) : Bool :=
  decide (ms.nodes.raw_memory n ≤ p) &&
    decide (p < ms.nodes.raw_memory n + ms.slab_memory_size)

/-- The backing allocator's regions are aligned as `malloc`'s are. -/
structure Aligned (T : Target) (B : Backing γ) (good : γ → Prop) : Prop where
  align : ∀ {n : Nat} {c : γ} {a : Nat} {c' : γ}, 0 < n → good c →
    B.mem_alloc n c = (some a, c') → a % T.MAX_ALIGN = 0

/-- One of the two requests of `multislab_grow` is refused. -/
def Denied (B : Backing γ) (ms : Multislab T) (c : γ) : Prop :=
  (B.mem_alloc (sizeof_node T) c).1 = none ∨
    ∃ node c₁, B.mem_alloc (sizeof_node T) c = (some node, c₁) ∧
      (B.mem_alloc ms.slab_memory_size c₁).1 = none

/-- The lists: disjoint, acyclic, doubly linked, flagged, and holding every node once. -/
structure ListsOk (ms : Multislab T) : Prop where
  lists : ∃ as fs, DList ms.nodes.next ms.nodes.prev ms.active as ∧
    DList ms.nodes.next ms.nodes.prev ms.full fs ∧ (∀ n ∈ as, n ∉ fs) ∧
    ms.nodes.dom.Perm (as ++ fs) ∧
    (∀ n ∈ ms.nodes.dom, ms.nodes.is_full n = true ↔ n ∈ fs) ∧
    ∀ n ∈ fs, ∀ i < ms.blocks_per_slab.toNat, (ms.nodes.slab n).used i = true

/-- The counters against the blocks held by the client. -/
structure CountersOk (s : Client T γ) : Prop where
  used : ∀ n ∈ s.ms.nodes.dom, (s.ms.nodes.used_count n).toNat = (s.ms.nodes.slab n).popcount ∧
    (s.ms.nodes.slab n).popcount = s.live.countP (inside s.ms n)
  slab_count : s.ms.slab_count.toNat = s.ms.nodes.dom.length
  cap : s.ms.max_slabs ≠ 0 → s.ms.slab_count ≤ s.ms.max_slabs
  empty_count : s.ms.empty_count.toNat
    = s.ms.nodes.dom.countP fun n => s.live.countP (inside s.ms n) == 0

/-- The result of the next allocation. -/
structure AllocOk (B : Backing γ) (out : γ → List Region) (s : Client T γ) : Prop where
  some : ∀ p ms' c', cfiber_multislab_alloc B s.ms s.ctx = (some p, ms', c') → p ∉ s.live ∧
    ∃ n ∈ ms'.nodes.dom, ∃ i < s.ms.blocks_per_slab.toNat,
      p = ms'.nodes.raw_memory n + i * s.ms.block_size ∧
      p + s.ms.block_size ≤ ms'.nodes.raw_memory n + s.ms.slab_memory_size
  none : ∀ ms' c', cfiber_multislab_alloc B s.ms s.ctx = (none, ms', c') →
    (∀ n ∈ s.ms.nodes.dom, ∀ i < s.ms.blocks_per_slab.toNat,
      s.ms.nodes.raw_memory n + i * s.ms.block_size ∈ s.live) ∧
    ((s.ms.max_slabs ≠ 0 ∧ s.ms.slab_count = s.ms.max_slabs) ∨ Denied B s.ms s.ctx) ∧
    Relinked s.ms ms' ∧ (out c').Perm (out s.ctx) ∧ ∀ p, p ∈ s.live ↔ Live ms' p

/-- The whole promise. -/
structure MultislabInv (B : Backing γ) (out : γ → List Region) (s : Client T γ) : Prop where
  lists : ListsOk s.ms
  counters : CountersOk s
  alloc : AllocOk B out s

/-! ## §3. Each part of the promise. -/

theorem Rep.listsOk {ms : Multislab T} {as fs : List Nat} (h : Rep ms as fs) : ListsOk ms := by
  refine ⟨as, fs, h.active, h.full, h.disjoint, h.dom, fun n hn => ?_, h.full_used⟩
  rcases h.mem_dom.mp hn with ha | hf
  · simp [h.flag_active n ha, h.disjoint n ha]
  · simp [h.flag_full n hf, hf]

theorem SlabOf.block_eq {ms : Multislab T} {n : Nat} (h : SlabOf ms n) (i : Nat) :
    ms.block n i = ms.nodes.raw_memory n + i * ms.block_size := by
  unfold Multislab.block Slab.block
  rw [h.memory, h.size]

/-- A live block ends below the end of the address space. -/
theorem Rep.live_fits {out : γ → List Region} {ms : Multislab T} {as fs : List Nat} {c : γ}
    (h : Rep ms as fs) (ho : Own out ms c) {p : Nat} (hp : Live ms p) :
    p + ms.block_size < 2 ^ T.WORD_BITS := by
  obtain ⟨n, hn, i, hi, rfl, -⟩ := hp
  have hrange := (h.slab n hn).block_range h.config hi
  have hfit := ho.fits _ (List.mem_flatMap.mpr ⟨n, hn, List.mem_cons_self⟩)
  simp only at hfit
  omega

/-- Distinct live blocks share no byte. -/
theorem Rep.live_apart {out : γ → List Region} {ms : Multislab T} {as fs : List Nat} {c : γ}
    (h : Rep ms as fs) (ho : Own out ms c) {p p' : Nat} (hp : Live ms p) (hp' : Live ms p')
    (hne : p ≠ p') : Apart (p, ms.block_size) (p', ms.block_size) := by
  obtain ⟨n, hn, i, hi, rfl, -⟩ := hp
  obtain ⟨m, hm, j, hj, rfl, -⟩ := hp'
  have hrn := (h.slab n hn).block_range h.config hi
  have hrm := (h.slab m hm).block_range h.config hj
  unfold Apart
  by_cases hnm : n = m
  · -- two blocks of one slab
    subst hnm
    rw [(h.slab n hn).block_eq, (h.slab n hn).block_eq] at hne ⊢
    rcases Nat.lt_trichotomy i j with hij | rfl | hij
    · left
      have := Nat.mul_le_mul_right ms.block_size (Nat.succ_le_of_lt hij)
      rw [Nat.succ_mul] at this
      simp only
      omega
    · exact absurd rfl hne
    · right
      have := Nat.mul_le_mul_right ms.block_size (Nat.succ_le_of_lt hij)
      rw [Nat.succ_mul] at this
      simp only
      omega
  · have hap := ho.nodes_apart hn hm hnm _ List.mem_cons_self _ List.mem_cons_self
    simp only [Apart] at hap ⊢
    omega

/-- A live block lies in the slab memory of its own node only. -/
theorem Sound.inside_block {out : γ → List Region} {ms : Multislab T} {as fs : List Nat} {c : γ}
    (h : Rep ms as fs) (ho : Own out ms c) {n m i : Nat} (hn : n ∈ ms.nodes.dom)
    (hm : m ∈ ms.nodes.dom) (hi : i < ms.blocks_per_slab.toNat) :
    inside ms m (ms.block n i) = decide (m = n) := by
  have hreg : (ms.nodes.raw_memory m, ms.slab_memory_size) ∈ regions ms :=
    List.mem_flatMap.mpr ⟨m, hm, List.mem_cons_self⟩
  have hfit := ho.fits _ hreg
  have howns := owns_block h ho hn hm hi
  unfold owns at howns
  simp only [T.wrap_of_lt hfit] at howns
  exact howns

/-- **The bits set in a slab are its live blocks.** -/
theorem Sound.popcount_eq {out : γ → List Region} {good : γ → Prop} {s : Client T γ}
    (h : Sound out good s) {n : Nat} (hn : n ∈ s.ms.nodes.dom) :
    (s.ms.nodes.slab n).popcount = s.live.countP (inside s.ms n) := by
  obtain ⟨as, fs, hrep⟩ := h.rep
  have hslab := hrep.slab n hn
  have himage : (s.live.filter (inside s.ms n)).toFinset
      = ((Finset.range T.MAX_BLOCKS).filter fun j => (s.ms.nodes.slab n).used j = true).image
          (s.ms.block n) := by
    ext p
    simp only [List.mem_toFinset, List.mem_filter, Finset.mem_image, Finset.mem_filter,
      Finset.mem_range, h.live]
    constructor
    · rintro ⟨⟨m, hm, i, hi, rfl, hu⟩, hin⟩
      rw [Sound.inside_block hrep h.own hm hn hi, decide_eq_true_eq] at hin
      subst hin
      exact ⟨i, ⟨hrep.per_lt hi, hu⟩, rfl⟩
    · rintro ⟨i, ⟨_, hu⟩, rfl⟩
      have hi : i < s.ms.blocks_per_slab.toNat := by
        by_contra hge
        rw [hslab.ok.tail i (by rw [hslab.count]; omega)] at hu
        exact absurd hu (by simp)
      exact ⟨⟨n, hn, i, hi, rfl, hu⟩, by
        rw [Sound.inside_block hrep h.own hn hn hi, decide_eq_true_eq]⟩
  have hinj : Function.Injective (s.ms.block n) := fun i j e => Slab.block_inj hslab.ok e
  calc (s.ms.nodes.slab n).popcount
      = (s.live.filter (inside s.ms n)).toFinset.card := by
        rw [himage, Finset.card_image_of_injective _ hinj]
        rfl
    _ = (s.live.filter (inside s.ms n)).length :=
        List.toFinset_card_of_nodup (h.nodup.filter _)
    _ = s.live.countP (inside s.ms n) := List.countP_eq_length_filter.symm

theorem Sound.empties_eq {out : γ → List Region} {good : γ → Prop} {s : Client T γ}
    (h : Sound out good s) :
    s.ms.empties = s.ms.nodes.dom.countP fun n => s.live.countP (inside s.ms n) == 0 := by
  refine List.countP_congr fun n hn => ?_
  rw [emptyNode, h.popcount_eq hn]

/-- **The counters are exact as long as they do not wrap.** -/
theorem Sound.countersOk {out : γ → List Region} {good : γ → Prop} {s : Client T γ}
    (h : Sound out good s) (hlt : s.ms.nodes.dom.length < 2 ^ 32) : CountersOk s := by
  obtain ⟨as, fs, hrep⟩ := h.rep
  have hslab : s.ms.slab_count.toNat = s.ms.nodes.dom.length := by
    rw [hrep.slab_count, UInt32.toNat_ofNat', Nat.mod_eq_of_lt hlt]
  refine ⟨fun n hn => ⟨hrep.count_toNat hn, h.popcount_eq hn⟩, hslab, fun hmax => ?_, ?_⟩
  · rw [UInt32.le_iff_toNat_le, hslab]
    exact hrep.max hmax
  · have hle : s.ms.empties ≤ s.ms.nodes.dom.length := List.countP_le_length
    rw [← h.empties_eq, hrep.empty_count, UInt32.toNat_ofNat', Nat.mod_eq_of_lt (by omega)]

/-- An allocator whose regions are aligned never has one rejected: it was refused memory. -/
theorem Refused.denied {B : Backing γ} {out : γ → List Region} {good : γ → Prop}
    (H : Honest T B out good) (A : Aligned T B good) {ms : Multislab T} {c : γ}
    (hc : Config ms) (hg : good c) (h : Refused B ms c) : Denied B ms c := by
  rcases h with h | ⟨node, c₁, h1, h | ⟨mem, c₂, h2, hbad⟩⟩
  · exact Or.inl h
  · exact Or.inr ⟨node, c₁, h1, h⟩
  · have hg₁ := (H.alloc_some (sizeof_node_pos T) hg h1).1
    exact absurd (A.align hc.size_pos hg₁ h2) hbad

/-- **The result of an allocation.** -/
theorem Sound.allocOk {B : Backing γ} {out : γ → List Region} {good : γ → Prop}
    (H : Honest T B out good) (A : Aligned T B good)
    {s : Client T γ} (h : Sound out good s) : AllocOk B out s := by
  obtain ⟨as, fs, hrep⟩ := h.rep
  rcases cfiber_multislab_alloc_spec H hrep h.own h.good with
    ⟨p, ms', c', heq, hg', ho', ⟨as', fs', hrep'⟩, hA⟩ |
    ⟨ms', c', heq, hg', ho', hrep', hr, hout, hfull, hwhy⟩
  · refine ⟨?_, fun ms₁ c₁ h1 => absurd (heq.symm.trans h1) (by simp)⟩
    intro p₁ ms₁ c₁ h1
    obtain ⟨rfl, rfl, rfl⟩ : p = p₁ ∧ ms' = ms₁ ∧ c' = c₁ := by
      have := heq.symm.trans h1
      simpa using this
    obtain ⟨n, hn, i, hi, rfl⟩ := hA.inside
    have hrange := (hrep'.slab n hn).block_range hrep'.config hi
    rw [hA.config.block_size, hA.config.slab_memory_size] at hrange
    refine ⟨fun hp => hA.fresh ((h.live _).mp hp), n, hn, i, ?_, ?_, hrange.2⟩
    · rwa [hA.config.blocks_per_slab] at hi
    · rw [(hrep'.slab n hn).block_eq, hA.config.block_size]
  · refine ⟨fun p₁ ms₁ c₁ h1 => absurd (heq.symm.trans h1) (by simp), ?_⟩
    intro ms₁ c₁ h1
    obtain ⟨rfl, rfl⟩ : ms' = ms₁ ∧ c' = c₁ := by
      have := heq.symm.trans h1
      simpa using this
    refine ⟨fun n hn i hi => ?_, ?_, hr, hout, fun q => by rw [hr.live]; exact h.live q⟩
    · rw [← (hrep.slab n hn).block_eq i, h.live]
      exact ⟨n, hn, i, hi, rfl, hfull n hn i hi⟩
    · rcases hwhy with ⟨hmax, hge⟩ | href
      · refine Or.inl ⟨hmax, ?_⟩
        have hle := hrep.max hmax
        have hlt := s.ms.max_slabs.toNat_lt
        have hsc : s.ms.slab_count.toNat = s.ms.nodes.dom.length := by
          rw [hrep.slab_count, UInt32.toNat_ofNat', Nat.mod_eq_of_lt (by omega)]
        have hge' : s.ms.max_slabs.toNat ≤ s.ms.slab_count.toNat := UInt32.le_iff_toNat_le.mp hge
        exact UInt32.toNat_inj.mp (by omega)
      · exact Or.inr (href.denied H A hrep.config h.good)

/-! ## §4. The promise over every run. -/

/-- **When the promise holds.**  In every state that calls can reach, the multislab keeps its whole
promise exactly if it has fewer than `2 ^ 32` slabs: `slab_count` is then the number of slabs, and
above it has wrapped. -/
theorem multislab_inv_iff {B : Backing γ} {out : γ → List Region} {good : γ → Prop}
    (H : Honest T B out good) (A : Aligned T B good)
    {block_size : Nat} {blocks_per_slab max_slabs reserve : UInt32} {ms : Multislab T} {c : γ}
    (hinit : cfiber_multislab_init_ext T block_size blocks_per_slab max_slabs reserve = some ms)
    (hg : good c) (hout : out c = []) {calls : List Call} {s : Client T γ}
    (hrun : exec (Client.step B) ⟨ms, c, []⟩ calls = some s) :
    MultislabInv B out s ↔ s.ms.nodes.dom.length < 2 ^ 32 := by
  have h := (Sound.start hinit hg hout).run H hrun
  constructor
  · intro hinv
    rw [← hinv.counters.slab_count]
    exact s.ms.slab_count.toNat_lt
  · intro hlt
    obtain ⟨as, fs, hrep⟩ := h.rep
    exact ⟨hrep.listsOk, h.countersOk hlt, h.allocOk H A⟩

/-! ## §5. A bump allocator, and the run that wraps `slab_count`. -/

/-- The default 64-bit build. -/
def lp64 : Target where
  WORD_BITS := 64
  BITMAP_SIZE := 8
  CACHE_LINE_SIZE := 64
  MAX_ALIGN := 16
  DEFENSIVE := false
  ASAN_REDZONE := 0
  word_bits := Or.inr rfl
  bitmap_size_pos := by decide
  max_blocks_int := by decide
  cache_line_pos := by decide
  asan_redzone_size := by decide

/-- The default 64-bit build with the address sanitizer. -/
def sanitized : Target where
  WORD_BITS := 64
  BITMAP_SIZE := 8
  CACHE_LINE_SIZE := 64
  MAX_ALIGN := 16
  DEFENSIVE := false
  ASAN_REDZONE := 64
  word_bits := Or.inr rfl
  bitmap_size_pos := by decide
  max_blocks_int := by decide
  cache_line_pos := by decide
  asan_redzone_size := by decide

/-- A bump allocator over the lower half of the address space: the next address, and the regions
outstanding. -/
def bump : Backing (Nat × List Region) where
  mem_alloc n c :=
    if c.1 + n < 2 ^ 63 then (some c.1, (c.1 + (n + 63) / 64 * 64, (c.1, n) :: c.2))
    else (none, c)
  mem_free a n c := (c.1, c.2.erase (a, n))

def bumpOk (c : Nat × List Region) : Prop := c.1 % 64 = 0 ∧ ∀ r ∈ c.2, r.1 + r.2 ≤ c.1

theorem bump_honest : Honest lp64 bump Prod.snd bumpOk where
  alloc_some := by
    intro n c a c' _ hc heq
    simp only [bump] at heq
    split_ifs at heq with hlt
    · obtain ⟨rfl, rfl⟩ : c.1 = a ∧ (c.1 + (n + 63) / 64 * 64, (c.1, n) :: c.2) = c' := by
        simpa using heq
      have hround : n ≤ (n + 63) / 64 * 64 := by omega
      refine ⟨⟨?_, ?_⟩, List.Perm.refl _, ?_, fun r hr => Or.inr (hc.2 r hr)⟩
      · have := hc.1
        show (c.1 + (n + 63) / 64 * 64) % 64 = 0
        omega
      · intro r hr
        rcases List.mem_cons.mp hr with rfl | hr
        · exact Nat.add_le_add_left hround _
        · exact Nat.le_trans (hc.2 r hr) (Nat.le_add_right _ _)
      · show c.1 + n < 2 ^ 64
        omega
    · simp at heq
  alloc_none := by
    intro n c c' _ hc heq
    simp only [bump] at heq
    split_ifs at heq with hlt
    · simp at heq
    · obtain rfl : c = c' := by simpa using heq
      exact ⟨hc, List.Perm.refl _⟩
  free := by
    intro a n c hc _
    exact ⟨⟨hc.1, fun r hr => hc.2 r (List.mem_of_mem_erase hr)⟩, List.Perm.refl _⟩

theorem bump_aligned : Aligned lp64 bump bumpOk where
  align := by
    intro n c a c' _ hc heq
    simp only [bump] at heq
    split_ifs at heq with hlt
    · obtain ⟨rfl, -⟩ : c.1 = a ∧ (c.1 + (n + 63) / 64 * 64, (c.1, n) :: c.2) = c' := by
        simpa using heq
      have := hc.1
      show c.1 % 16 = 0
      omega
    · simp at heq

/-- One block of 64 bytes a slab, no cap, no reserve. -/
def tiny : Option (Multislab lp64) := cfiber_multislab_init_ext lp64 64 1 0 0

theorem multislab_inv_iff_bump : ∃ ms s, tiny = some ms ∧
    exec (Client.step bump) ⟨ms, (64, []), []⟩ [.alloc, .alloc, .release 192] = some s ∧
      (MultislabInv bump Prod.snd s ↔ s.ms.nodes.dom.length < 2 ^ 32) := by
  have hsome : (tiny.bind fun ms => exec (Client.step bump) ⟨ms, (64, []), []⟩
      [.alloc, .alloc, .release 192]).isSome = true := by decide +kernel
  obtain ⟨s, hs⟩ := Option.isSome_iff_exists.mp hsome
  obtain ⟨ms, hms, hrun⟩ := Option.bind_eq_some_iff.mp hs
  exact ⟨ms, s, hms, hrun, multislab_inv_iff bump_honest bump_aligned hms
    ⟨rfl, fun _ h => absurd h List.not_mem_nil⟩ rfl hrun⟩

/-- A backing allocator that hands out addresses in increasing order up to `2 ^ 63`; `level` is the
next one. -/
structure Bumps (B : Backing γ) (level : γ → Nat) : Prop where
  alloc_le : ∀ n c, level (B.mem_alloc n c).2 ≤ level c + (n + 63) / 64 * 64
  alloc_none : ∀ {n c}, (B.mem_alloc n c).1 = none → 2 ^ 63 ≤ level c + n
  free_le : ∀ a n c, level (B.mem_free a n c) ≤ level c

theorem bump_bumps : Bumps bump Prod.fst where
  alloc_le := by
    intro n c
    simp only [bump]
    split
    · exact Nat.le_refl _
    · exact Nat.le_add_right _ _
  alloc_none := by
    intro n c h
    simp only [bump] at h
    split_ifs at h with hlt
    omega
  free_le := fun _ _ _ => Nat.le_refl _

section
variable {B : Backing γ} {level : γ → Nat}

/-- What one call takes at most: a node and a slab. -/
def room (ms : Multislab lp64) : Nat := 128 + (ms.slab_memory_size + 63) / 64 * 64

theorem Bumps.node_le (h : Bumps B level) (c : γ) :
    level (B.mem_alloc (sizeof_node lp64) c).2 ≤ level c + 128 :=
  h.alloc_le (sizeof_node lp64) c

theorem Bumps.grow_le (h : Bumps B level) (ms : Multislab lp64) (c : γ) :
    level (multislab_grow B ms c).2.2 ≤ level c + room ms := by
  have h1 := h.node_le c
  unfold room multislab_grow
  split
  · exact Nat.le_add_right _ _
  rcases ha : B.mem_alloc (sizeof_node lp64) c with ⟨_ | node, c₁⟩
  · rw [ha] at h1
    simp only at h1 ⊢
    omega
  rw [ha] at h1
  have h2 := h.alloc_le ms.slab_memory_size c₁
  simp only at h1 ⊢
  rcases hb : B.mem_alloc ms.slab_memory_size c₁ with ⟨_ | mem, c₂⟩
  · rw [hb] at h2
    have h3 := h.free_le node (sizeof_node lp64) c₂
    simp only at h2 ⊢
    omega
  rw [hb] at h2
  simp only at h2 ⊢
  cases cfiber_slab_init lp64 ms.block_size mem ms.slab_memory_size with
  | none =>
      have h3 := h.free_le mem ms.slab_memory_size c₂
      have h4 := h.free_le node (sizeof_node lp64) (B.mem_free mem ms.slab_memory_size c₂)
      simp only
      omega
  | some slab => simp only; omega

theorem Bumps.call_le (h : Bumps B level) (ms : Multislab lp64) (c : γ) :
    level (cfiber_multislab_alloc B ms c).2.2 ≤ level c + room ms := by
  have hscan := (alloc_scan_config (ms.nodes.dom.length + 1) ms).slab_memory_size
  unfold cfiber_multislab_alloc
  rcases h1 : alloc_scan (ms.nodes.dom.length + 1) ms with ⟨_ | ptr, ms₁⟩
  · rw [h1] at hscan
    have hgrow := h.grow_le ms₁ c
    have hroom : room ms₁ = room ms := by
      unfold room
      rw [hscan]
    rw [hroom] at hgrow
    rcases h2 : multislab_grow B ms₁ c with ⟨_ | node, ms₂, c₂⟩
    · rw [h2] at hgrow
      simpa only [h2] using hgrow
    · rw [h2] at hgrow
      simpa only [h2] using hgrow
  · exact Nat.le_add_right _ _

/-- While the address space lasts nothing is refused. -/
theorem Bumps.not_refused (h : Bumps B level) {out : γ → List Region} {good : γ → Prop}
    (H : Honest lp64 B out good) (A : Aligned lp64 B good) {ms : Multislab lp64} {c : γ}
    (hc : Config ms) (hg : good c) (hroom : level c + room ms < 2 ^ 63) : ¬ Refused B ms c := by
  intro href
  unfold room at hroom
  have hnode : sizeof_node lp64 = 128 := by decide
  rcases href.denied H A hc hg with h1 | ⟨node, c₁, h1, h2⟩
  · have := h.alloc_none h1
    omega
  · have hc₁ := h.node_le c
    rw [h1] at hc₁
    simp only at hc₁
    have := h.alloc_none h2
    omega

/-- With room left and no cap an allocation succeeds. -/
theorem Bumps.alloc_some (h : Bumps B level) {out : γ → List Region} {good : γ → Prop}
    (H : Honest lp64 B out good) (A : Aligned lp64 B good) {ms : Multislab lp64}
    {as fs : List Nat} {c : γ} (hrep : Rep ms as fs) (hown : Own out ms c) (hg : good c)
    (hcap : ms.max_slabs = 0) (hroom : level c + room ms < 2 ^ 63) :
    ∃ p ms' c', cfiber_multislab_alloc B ms c = (some p, ms', c') ∧
      level c' ≤ level c + room ms ∧ Allocated out ms ms' c c' p := by
  have hle := h.call_le ms c
  rcases cfiber_multislab_alloc_spec H hrep hown hg with
    ⟨p, ms', c', heq, -, -, -, hA⟩ | ⟨ms', c', heq, -, -, -, -, -, -, hwhy⟩
  · rw [heq] at hle
    exact ⟨p, ms', c', heq, hle, hA⟩
  · exfalso
    rcases hwhy with ⟨hmax, -⟩ | href
    · exact hmax hcap
    · exact h.not_refused H A hrep.config hg hroom href

end

/-- With one block a slab there are at least as many slabs as live blocks. -/
theorem Sound.live_le_nodes {out : γ → List Region} {good : γ → Prop} {s : Client T γ}
    (h : Sound out good s) (hone : s.ms.blocks_per_slab = 1) :
    s.live.length ≤ s.ms.nodes.dom.length := by
  have hle := live_length_le h.nodup fun p hp => (h.live p).mp hp
  rw [hone] at hle
  simpa using hle

/-- The first `k` allocations from the bump allocator all succeed. -/
theorem bump_run {ms : Multislab lp64} (hinit : tiny = some ms) (k : Nat) (hk : k ≤ 2 ^ 32) :
    ∃ s, exec (Client.step bump) ⟨ms, (64, []), []⟩ (List.replicate k .alloc) = some s ∧
      s.live.length = k ∧ s.ctx.1 ≤ 64 + 192 * k ∧ SameConfig ms s.ms ∧
      s.ms.nodes.dom.length ≤ k := by
  have hstart : Sound Prod.snd bumpOk (⟨ms, (64, []), []⟩ : Client lp64 _) :=
    Sound.start hinit ⟨rfl, fun _ h => absurd h List.not_mem_nil⟩ rfl
  obtain ⟨hrep₀, hdom₀, hbs, hper, hmax, -⟩ := cfiber_multislab_init_ext_spec hinit
  have hsize₀ : ms.slab_memory_size = 64 := by rw [hrep₀.config.size_eq, hbs, hper]; rfl
  induction k with
  | zero => exact ⟨_, rfl, rfl, Nat.le_refl _, SameConfig.refl ms, by simp [hdom₀]⟩
  | succ k ih =>
      obtain ⟨s, hrun, hlen, haddr, hcfg, hnodes⟩ := ih (by omega)
      have hs := hstart.run bump_honest hrun
      obtain ⟨as, fs, hrep⟩ := hs.rep
      have hroom : room s.ms = 192 := by
        unfold room
        rw [hcfg.slab_memory_size, hsize₀]
      obtain ⟨p, ms', c', heq, hle, hA⟩ := bump_bumps.alloc_some bump_honest bump_aligned hrep
        hs.own hs.good (hcfg.max_slabs.trans hmax) (by omega)
      refine ⟨⟨ms', c', p :: s.live⟩, ?_, by simp [hlen], ?_, hcfg.trans hA.config, ?_⟩
      · rw [List.replicate_succ', exec_snoc]
        exact ⟨s, hrun, by simp only [Client.step, heq]⟩
      · show c'.1 ≤ 64 + 192 * (k + 1)
        omega
      · show ms'.nodes.dom.length ≤ k + 1
        rcases hA.grew with hsame | ⟨-, node, hgrew⟩
        · rw [hsame]
          omega
        · rw [hgrew, List.length_cons]
          omega

/-- **The promise is broken at `2 ^ 32` slabs**: that many allocations from a well-behaved
allocator all succeed, and `slab_count` no longer counts the slabs. -/
theorem slab_count_wraps : ∃ ms calls s, tiny = some ms ∧
    exec (Client.step bump) ⟨ms, (64, []), []⟩ calls = some s ∧
      ¬ MultislabInv bump Prod.snd s := by
  obtain ⟨ms, hms⟩ : ∃ ms, tiny = some ms := ⟨_, rfl⟩
  obtain ⟨s, hrun, hlen, -, hcfg, -⟩ := bump_run hms (2 ^ 32) (Nat.le_refl _)
  have hs : Sound Prod.snd bumpOk s :=
    (Sound.start hms ⟨rfl, fun _ h => absurd h List.not_mem_nil⟩ rfl).run bump_honest hrun
  have hone : s.ms.blocks_per_slab = 1 :=
    hcfg.blocks_per_slab.trans (cfiber_multislab_init_ext_spec hms).2.2.2.1
  refine ⟨ms, _, s, hms, hrun, fun hinv => ?_⟩
  have hle := hs.live_le_nodes hone
  have hcount := hinv.counters.slab_count
  have hlt := s.ms.slab_count.toNat_lt
  omega

end CFiber.Memory
