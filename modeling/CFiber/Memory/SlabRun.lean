/-
  CFiber.Memory.SlabRun — a slab and its client over whole runs.

  The client allocates, gives back what it was handed out, and resets.  `Held` ties the blocks it
  holds to the bits of the slab; every call keeps it (`SlabClient.held`).  `SlabLaw` is what the
  client may rely on in a state:

    • `allocs`, `full`  — the lowest block not held, or null when there is none;
    • `index`, `inside`, `apart` — addresses and indices agree, blocks lie in the region and apart;
    • `tail`, `alloc_blind`, `release_blind` — bits beyond the last block stay clear, words beyond the
      last one in use are neither looked at nor changed.

  The law holds all along every run exactly if the index of every block fits an `int`
  (`slab_law_iff`): `bitmap_find_free` answers with one.
-/
import CFiber.Base.Run
import CFiber.Memory.Slab

namespace CFiber.Memory

open CFiber.Base

variable {T : Build}

/-! ## §1. A slab and its client. -/

inductive SlabCall where
  | alloc
  | release (block : Nat)
  | reset
  deriving DecidableEq, Repr

/-- The slab, and the blocks its client holds. -/
structure SlabClient (T : Build) where
  slab : Slab T
  live : List Nat

/-- A call; the client gives back only what it holds. -/
def SlabClient.step (c : SlabClient T) : SlabCall → Option (SlabClient T)
  | .alloc =>
    match cfiber_slab_alloc c.slab with
    | (none, slab) => some { c with slab := slab }
    | (some block, slab) => some ⟨slab, block :: c.live⟩
  | .release block =>
    if block ∈ c.live then some ⟨(cfiber_slab_release c.slab block).2, c.live.erase block⟩ else none
  | .reset => some ⟨cfiber_slab_reset c.slab, []⟩

/-- What `op` does to the first `n` words, and what it answers, does not depend on the others; and
those it leaves alone. -/
def Blind {α : Type} (n : Nat) (op : Bitmap T → α × Bitmap T) : Prop :=
  ∀ b b' : Bitmap T, (∀ i < n, b i = b' i) →
    (op b).1 = (op b').1 ∧ (∀ i < n, (op b).2 i = (op b').2 i) ∧ ∀ i, n ≤ i → (op b).2 i = b i

/-- `cfiber_slab_alloc` as an operation on the bitmap. -/
def Slab.alloc_op (slab : Slab T) (b : Bitmap T) : Option Nat × Bitmap T :=
  let r := cfiber_slab_alloc { slab with bitmap := b }
  (r.1, r.2.bitmap)

/-- `cfiber_slab_release` as an operation on the bitmap. -/
def Slab.release_op (slab : Slab T) (block : Nat) (b : Bitmap T) : Bool × Bitmap T :=
  let r := cfiber_slab_release { slab with bitmap := b } block
  (r.1, r.2.bitmap)

/-- **What the client of a slab over `memory` relies on.** -/
structure SlabLaw (memory memory_size block_size : Nat) (c : SlabClient T) : Prop where
  allocs : ∀ p, (cfiber_slab_alloc c.slab).1 = some p ↔
    ∃ i < memory_size / block_size, p = memory + i * block_size ∧ p ∉ c.live ∧
      ∀ j < i, memory + j * block_size ∈ c.live
  full : (cfiber_slab_alloc c.slab).1 = none ↔
    ∀ i < memory_size / block_size, memory + i * block_size ∈ c.live
  index : ∀ i < c.slab.block_count, ptr_to_index c.slab (index_to_ptr c.slab i) = i
  inside : ∀ p ∈ c.live, memory ≤ p ∧ p + block_size ≤ memory + memory_size
  apart : c.live.Pairwise fun p q => p + block_size ≤ q ∨ q + block_size ≤ p
  count : c.slab.block_count = memory_size / block_size
  tail : ∀ i, c.slab.block_count ≤ i → bitAt c.slab.bitmap i = false
  words : c.slab.bitmap_count ≤ T.BITMAP_SIZE
  alloc_blind : Blind c.slab.bitmap_count c.slab.alloc_op
  release_blind : ∀ p ∈ c.live, Blind c.slab.bitmap_count (c.slab.release_op p)

/-! ## §2. What is held and what is marked. -/

/-- The blocks held are the ones whose bits are set. -/
structure Held (memory memory_size block_size : Nat) (c : SlabClient T) : Prop where
  ok : c.slab.Ok
  memory : c.slab.memory = memory
  size : c.slab.block_size = block_size
  count : c.slab.block_count = memory_size / block_size
  nodup : c.live.Nodup
  used : ∀ p, p ∈ c.live ↔ ∃ i < c.slab.block_count, c.slab.used i = true ∧ c.slab.block i = p

section
variable {memory memory_size block_size : Nat} {c c' : SlabClient T}

theorem Held.used_iff (h : Held memory memory_size block_size c) {i : Nat}
    (hi : i < c.slab.block_count) : c.slab.block i ∈ c.live ↔ c.slab.used i = true := by
  rw [h.used]
  constructor
  · rintro ⟨j, -, hj, he⟩
    rwa [← Slab.block_inj h.ok he]
  · intro hu
    exact ⟨i, hi, hu, rfl⟩

theorem Held.block_eq (h : Held memory memory_size block_size c) (i : Nat) :
    c.slab.block i = memory + i * block_size := by
  unfold Slab.block
  rw [h.memory, h.size]

/-- The block just found becomes the client's. -/
theorem Held.take (h : Held memory memory_size block_size c) {i : Nat}
    (hi : i < c.slab.block_count) (hfree : c.slab.used i = false) :
    Held memory memory_size block_size ⟨c.slab.take i, c.slab.block i :: c.live⟩ where
  ok := h.ok.take hi
  memory := h.memory
  size := h.size
  count := h.count
  nodup := by
    refine List.nodup_cons.mpr ⟨fun hm => ?_, h.nodup⟩
    rw [h.used_iff hi, hfree] at hm
    exact absurd hm (by simp)
  used := by
    intro p
    rw [List.mem_cons, h.used]
    constructor
    · rintro (rfl | ⟨j, hj, hu, rfl⟩)
      · exact ⟨i, hi, by simp, rfl⟩
      · exact ⟨j, hj, by simp [hu], rfl⟩
    · rintro ⟨j, hj, hu, rfl⟩
      rw [Slab.used_take, Bool.or_eq_true, decide_eq_true_eq] at hu
      rcases hu with rfl | hu
      · exact Or.inl rfl
      · exact Or.inr ⟨j, hj, hu, rfl⟩

/-- A block the client held is free again. -/
theorem Held.give (h : Held memory memory_size block_size c) (i : Nat) :
    Held memory memory_size block_size ⟨c.slab.give i, c.live.erase (c.slab.block i)⟩ where
  ok := h.ok.give i
  memory := h.memory
  size := h.size
  count := h.count
  nodup := h.nodup.erase _
  used := by
    intro p
    rw [h.nodup.mem_erase_iff, h.used]
    constructor
    · rintro ⟨hne, j, hj, hu, rfl⟩
      have hji : j ≠ i := fun e => hne (by rw [e])
      exact ⟨j, hj, by simp [hji, hu], rfl⟩
    · rintro ⟨j, hj, hu, rfl⟩
      rw [Slab.used_give, Bool.and_eq_true, Bool.not_eq_true', decide_eq_false_iff_not] at hu
      exact ⟨fun e => hu.1 (Slab.block_inj h.ok e), j, hj, hu.2, rfl⟩

/-- Nothing is held after a reset. -/
theorem Held.reset (h : Held memory memory_size block_size c) :
    Held memory memory_size block_size ⟨cfiber_slab_reset c.slab, []⟩ := by
  have hclear : ∀ i, (cfiber_slab_reset c.slab).used i = false := by
    intro i
    simp [Slab.used, cfiber_slab_reset, bitAt]
  have hok : (cfiber_slab_reset c.slab).Ok :=
    ⟨h.ok.block_size_pos, h.ok.count_le, h.ok.words, h.ok.words_le, h.ok.fits, fun i _ => hclear i⟩
  refine ⟨hok, h.memory, h.size, h.count, List.nodup_nil, ?_⟩
  intro p
  simp [hclear]

/-- **Every call keeps the books.** -/
theorem SlabClient.held (h : Held memory memory_size block_size c) {call : SlabCall}
    (hs : c.step call = some c') : Held memory memory_size block_size c' := by
  cases call with
  | alloc =>
      simp only [SlabClient.step] at hs
      rcases cfiber_slab_alloc_cases h.ok with ⟨heq, -⟩ | ⟨i, hi, hfree, -, heq⟩
      · rw [heq] at hs
        obtain rfl := Option.some.inj hs
        exact h
      · rw [heq] at hs
        split_ifs at hs with hint
        · obtain rfl := Option.some.inj hs
          exact h.take hi hfree
        · obtain rfl := Option.some.inj hs
          exact h
  | release p =>
      simp only [SlabClient.step] at hs
      split_ifs at hs with hp
      obtain ⟨i, hi, hu, rfl⟩ := (h.used p).mp hp
      rw [cfiber_slab_release_spec h.ok hi hu] at hs
      obtain rfl := Option.some.inj hs
      exact h.give i
  | reset =>
      obtain rfl := Option.some.inj hs
      exact h.reset

theorem Held.start {slab : Slab T}
    (hinit : cfiber_slab_init T block_size memory memory_size = some slab)
    (hfit : memory + memory_size < 2 ^ T.WORD_BITS) :
    Held memory memory_size block_size ⟨slab, []⟩ := by
  obtain ⟨hok, hmem, hsize, hcount, hempty⟩ := cfiber_slab_init_spec hinit hfit
  refine ⟨hok, hmem, hsize, hcount, List.nodup_nil, ?_⟩
  intro p
  simp [hempty]

/-! ## §3. The words in use. -/

/-- The scan looks at the first words only. -/
theorem bitmap_find_free_loop_congr {b b' : Bitmap T} (capacity : Nat) :
    ∀ (k i : Nat), (∀ j < i + k, b j = b' j) →
      bitmap_find_free_loop b capacity k i = bitmap_find_free_loop b' capacity k i := by
  intro k
  induction k with
  | zero => intro i _; rfl
  | succ k ih =>
      intro i hsame
      have hword : b i = b' i := hsame i (by omega)
      have hrest := ih (i + 1) fun j hj => hsame j (by omega)
      simp only [bitmap_find_free_loop, hword, hrest]

/-- The word of a block is in use. -/
theorem Slab.Ok.word_lt {slab : Slab T} (h : slab.Ok) {i : Nat} (hi : i < slab.block_count) :
    INDEX_BITMAP T i < slab.bitmap_count :=
  (Nat.div_lt_iff_lt_mul T.word_bits_pos).mpr (lt_of_lt_of_le hi h.words)

/-- Changing the word of one block. -/
theorem blind_update {n w : Nat} (hw : w < n) (g : BitVec T.WORD_BITS → BitVec T.WORD_BITS)
    {b b' : Bitmap T} (hsame : ∀ i < n, b i = b' i) :
    (∀ i < n, Function.update b w (g (b w)) i = Function.update b' w (g (b' w)) i) ∧
      ∀ i, n ≤ i → Function.update b w (g (b w)) i = b i := by
  constructor
  · intro i hi
    by_cases hiw : i = w
    · rw [hiw, Function.update_self, Function.update_self, hsame w hw]
    · rw [Function.update_of_ne hiw, Function.update_of_ne hiw, hsame i hi]
  · intro i hi
    exact Function.update_of_ne (by omega) _ _

/-- The scan's answer is an index below the capacity, whatever the bits are. -/
theorem FindsFree.toNat_lt {b : Bitmap T} {capacity : Nat} {r : Int} (h : FindsFree b capacity r)
    (hcap : capacity ≤ 2 ^ 32) (hr : ¬ r < 0) : r.toNat < capacity := by
  rcases h with ⟨rfl, -⟩ | ⟨n, rfl, hn, -⟩
  · exact absurd (by decide) hr
  · by_cases hint : n < 2 ^ 31
    · rw [to_int_of_lt hint, Int.toNat_natCast]
      exact hn
    · exact absurd (to_int_neg (by omega) (by omega)) hr

/-- **Allocation sees the words in use only.** -/
theorem Slab.Ok.alloc_blind {slab : Slab T} (h : slab.Ok) :
    Blind slab.bitmap_count slab.alloc_op := by
  intro b b' hsame
  have hscan : bitmap_find_free b slab.bitmap_count slab.block_count
      = bitmap_find_free b' slab.bitmap_count slab.block_count :=
    bitmap_find_free_loop_congr _ _ 0 fun j hj => hsame j (by omega)
  have hspec := bitmap_find_free_spec b slab.bitmap_count slab.block_count h.words
    (le_trans h.words_le (le_of_lt T.max_blocks_lt_uint32))
  have hcap : slab.block_count ≤ 2 ^ 32 :=
    le_trans h.count_le (le_of_lt T.max_blocks_lt_uint32)
  unfold Slab.alloc_op cfiber_slab_alloc
  simp only [← hscan]
  by_cases hr : bitmap_find_free b slab.bitmap_count slab.block_count < 0
  · simp only [if_pos hr]
    exact ⟨trivial, hsame, fun _ _ => trivial⟩
  · simp only [if_neg hr]
    have hword := h.word_lt (hspec.toNat_lt hcap hr)
    obtain ⟨hin, hout⟩ := blind_update hword (· ||| INDEX_TO_BIT T _) hsame
    exact ⟨rfl, hin, hout⟩

/-- **Release sees the words in use only.** -/
theorem Slab.Ok.release_blind {slab : Slab T} (h : slab.Ok) {i : Nat}
    (hi : i < slab.block_count) : Blind slab.bitmap_count (slab.release_op (slab.block i)) := by
  intro b b' hsame
  have hword := h.word_lt hi
  have hindex : ∀ b : Bitmap T, ptr_to_index { slab with bitmap := b } (slab.block i) = i :=
    fun _ => ptr_to_index_block h hi
  have htest : bitmap_test b i = bitmap_test b' i := by
    unfold bitmap_test
    rw [hsame _ hword]
  unfold Slab.release_op cfiber_slab_release
  simp only [hindex, htest]
  split_ifs
  · exact ⟨rfl, hsame, fun _ _ => rfl⟩
  · exact ⟨rfl, hsame, fun _ _ => rfl⟩
  · exact ⟨rfl, hsame, fun _ _ => rfl⟩
  · obtain ⟨hin, hout⟩ := blind_update hword (· &&& ~~~ INDEX_TO_BIT T i) hsame
    exact ⟨rfl, hin, hout⟩

theorem Slab.Ok.words_in_bitmap {slab : Slab T} (h : slab.Ok) :
    slab.bitmap_count ≤ T.BITMAP_SIZE := by
  have hle : slab.bitmap_count * T.WORD_BITS ≤ T.BITMAP_SIZE * T.WORD_BITS := by
    rw [Nat.mul_comm T.BITMAP_SIZE]
    exact le_trans h.words_le (Nat.mod_le _ _)
  exact Nat.le_of_mul_le_mul_right hle T.word_bits_pos

/-! ## §4. The law. -/

/-- **The law where every index fits an `int`.** -/
theorem Held.law (h : Held memory memory_size block_size c)
    (hint : c.slab.block_count ≤ 2 ^ 31) : SlabLaw memory memory_size block_size c := by
  have hcount := h.count
  have hmem : ∀ i < c.slab.block_count,
      memory + i * block_size ∈ c.live ↔ c.slab.used i = true := by
    intro i hi
    rw [← h.block_eq i]
    exact h.used_iff hi
  have halloc : (cfiber_slab_alloc c.slab).1 = none ∧ (∀ j < c.slab.block_count,
      memory + j * block_size ∈ c.live) ∨
      ∃ i < c.slab.block_count, memory + i * block_size ∉ c.live ∧
        (∀ j < i, memory + j * block_size ∈ c.live) ∧
        (cfiber_slab_alloc c.slab).1 = some (memory + i * block_size) := by
    rcases cfiber_slab_alloc_cases h.ok with ⟨heq, hall⟩ | ⟨i, hi, hfree, hlow, heq⟩
    · left
      rw [heq]
      exact ⟨rfl, fun j hj => (hmem j hj).mpr (hall j hj)⟩
    · right
      rw [if_pos (by omega)] at heq
      refine ⟨i, hi, ?_, fun j hj => (hmem j (by omega)).mpr (hlow j hj), ?_⟩
      · rw [hmem i hi, hfree]
        simp
      · rw [heq, h.block_eq]
  refine ⟨?allocs, ?full, ?index, ?inside, ?apart, hcount, h.ok.tail, h.ok.words_in_bitmap,
    h.ok.alloc_blind, ?release_blind⟩
  case allocs =>
    intro p
    rw [← hcount]
    rcases halloc with ⟨hnone, hall⟩ | ⟨i, hi, hfree, hlow, hsome⟩
    · rw [hnone]
      apply iff_of_false (by simp)
      rintro ⟨i, hi, rfl, hfree, -⟩
      exact hfree (hall i hi)
    · rw [hsome, Option.some.injEq]
      constructor
      · rintro rfl
        exact ⟨i, hi, rfl, hfree, hlow⟩
      · rintro ⟨j, -, rfl, hfree', hlow'⟩
        -- both are the lowest block not held
        rcases Nat.lt_trichotomy i j with hij | rfl | hij
        · exact absurd (hlow' i hij) hfree
        · rfl
        · exact absurd (hlow j hij) hfree'
  case full =>
    rw [← hcount]
    rcases halloc with ⟨hnone, hall⟩ | ⟨i, hi, hfree, -, hsome⟩
    · exact iff_of_true hnone hall
    · rw [hsome]
      exact iff_of_false (by simp) fun hall => hfree (hall i hi)
  case index =>
    intro i hi
    rw [index_to_ptr_eq h.ok hi]
    exact ptr_to_index_block h.ok hi
  case inside =>
    intro p hp
    obtain ⟨i, hi, -, rfl⟩ := (h.used p).mp hp
    have hend := Slab.block_lt hi
    have hdiv := Nat.div_mul_le_self memory_size block_size
    rw [h.memory, h.size, hcount] at hend
    rw [h.block_eq] at hend ⊢
    omega
  case apart =>
    -- distinct blocks of one slab
    refine h.nodup.imp_of_mem ?_
    intro p q hp hq hne
    obtain ⟨i, hi, -, rfl⟩ := (h.used p).mp hp
    obtain ⟨j, hj, -, rfl⟩ := (h.used q).mp hq
    rw [h.block_eq, h.block_eq]
    rcases Nat.lt_trichotomy i j with hij | rfl | hij
    · left
      have := Nat.mul_le_mul_right block_size (Nat.succ_le_of_lt hij)
      rw [Nat.succ_mul] at this
      omega
    · exact absurd rfl hne
    · right
      have := Nat.mul_le_mul_right block_size (Nat.succ_le_of_lt hij)
      rw [Nat.succ_mul] at this
      omega
  case release_blind =>
    intro p hp
    obtain ⟨i, hi, -, rfl⟩ := (h.used p).mp hp
    exact h.ok.release_blind hi

/-- The first `k` blocks, by `k` allocations. -/
theorem Held.fill (h : Held memory memory_size block_size c)
    (hempty : ∀ i, c.slab.used i = false) :
    ∀ k, k ≤ c.slab.block_count → k ≤ 2 ^ 31 →
      ∃ c', exec SlabClient.step c (List.replicate k .alloc) = some c' ∧
        Held memory memory_size block_size c' ∧
        ∀ i, c'.slab.used i = decide (i < k) := by
  intro k
  induction k with
  | zero => intro _ _; exact ⟨c, rfl, h, by simpa using hempty⟩
  | succ k ih =>
      intro hk hint
      obtain ⟨c₁, hrun, h₁, hused⟩ := ih (by omega) (by omega)
      have hcount : k < c₁.slab.block_count := by rw [h₁.count, ← h.count]; omega
      rcases cfiber_slab_alloc_cases h₁.ok with ⟨-, hall⟩ | ⟨i, -, hfree, hlow, heq⟩
      · have := hall k hcount
        rw [hused] at this
        simp at this
      · -- the lowest free block is the next one
        obtain rfl : i = k := by
          rw [hused, decide_eq_false_iff_not] at hfree
          by_contra hne
          have := hlow k (by omega)
          rw [hused] at this
          simp at this
        rw [if_pos (by omega)] at heq
        refine ⟨⟨c₁.slab.take i, c₁.slab.block i :: c₁.live⟩, ?_, h₁.take hcount hfree, ?_⟩
        · rw [List.replicate_succ', exec_snoc]
          exact ⟨c₁, hrun, by simp only [SlabClient.step, heq]⟩
        · intro j
          rw [Slab.used_take, hused, ← Bool.decide_or]
          congr 1
          apply propext
          omega

/-- **Past the `int`.**  With block `2 ^ 31` next, the answer is null and the block is free. -/
theorem Held.overrun (h : Held memory memory_size block_size c)
    (hempty : ∀ i, c.slab.used i = false) (hgt : 2 ^ 31 < c.slab.block_count) :
    ∃ c', exec SlabClient.step c (List.replicate (2 ^ 31) .alloc) = some c' ∧
      (cfiber_slab_alloc c'.slab).1 = none ∧ memory + 2 ^ 31 * block_size ∉ c'.live := by
  obtain ⟨c', hrun, h', hused⟩ := h.fill hempty (2 ^ 31) (le_of_lt hgt) (Nat.le_refl _)
  refine ⟨c', hrun, ?_, ?_⟩
  · rcases cfiber_slab_alloc_cases h'.ok with ⟨heq, -⟩ | ⟨i, -, hfree, -, heq⟩
    · rw [heq]
    · rw [hused, decide_eq_false_iff_not] at hfree
      rw [heq, if_neg hfree]
  · rw [← h'.block_eq, h'.used_iff (by rw [h'.count, ← h.count]; exact hgt), hused]
    simp

end

/-- **When a slab keeps its law**, whatever its client does: exactly if the index of every block fits
an `int`.  The region ends below the end of the address space. -/
theorem slab_law_iff {memory memory_size block_size : Nat} {slab : Slab T}
    (hinit : cfiber_slab_init T block_size memory memory_size = some slab)
    (hfit : memory + memory_size < 2 ^ T.WORD_BITS) :
    (∀ calls c, exec SlabClient.step ⟨slab, []⟩ calls = some c →
      SlabLaw memory memory_size block_size c) ↔ memory_size / block_size ≤ 2 ^ 31 := by
  have hstart := Held.start hinit hfit
  constructor
  · intro hlaw
    by_contra hgt
    obtain ⟨c, hrun, hnone, hfree⟩ := hstart.overrun (cfiber_slab_init_spec hinit hfit).2.2.2.2
      (by rw [hstart.count]; omega)
    exact hfree ((hlaw _ c hrun).full.mp hnone (2 ^ 31) (by omega))
  · intro hint calls c hrun
    have hc := exec_inv (Held memory memory_size block_size)
      (fun _ _ _ hh hs => SlabClient.held hh hs) hstart hrun
    exact hc.law (by rw [hc.count]; exact hint)

theorem wide_word_bits : 64 = 32 ∨ 64 = 64 := Or.inr rfl

theorem wide_cache_line : 0 < 64 := by decide

theorem wide_redzone : 0 < 2 ^ 64 := by decide

/-- A 64-bit build whose bitmaps have one word too many for an `int`. -/
def wide : Build where
  WORD_BITS := 64
  BITMAP_SIZE := 33554433
  CACHE_LINE_SIZE := 64
  MAX_ALIGN := 16
  DEFENSIVE := false
  ASAN_REDZONE := 0
  word_bits := wide_word_bits
  bitmap_size_pos := by decide
  cache_line_pos := wide_cache_line
  asan_redzone_size := wide_redzone

/-- A region of three blocks and a part of a fourth one. -/
theorem slab_law_wide : ∃ slab, cfiber_slab_init wide 64 4096 200 = some slab ∧
    ∀ calls c, exec SlabClient.step ⟨slab, []⟩ calls = some c → SlabLaw 4096 200 64 c := by
  have hinit : cfiber_slab_init wide 64 4096 200 = some ⟨4096, 64, 3, fun _ => 0, 1⟩ := rfl
  exact ⟨_, hinit, (slab_law_iff hinit (by decide)).mpr (by decide)⟩

/-- A region of `2 ^ 31 + 1` blocks: with `2 ^ 31` of them allocated the answer is null, and the last
one is free. -/
theorem slab_overrun_wide : ∃ slab, cfiber_slab_init wide 64 4096 (2147483649 * 64) = some slab ∧
    ∃ c, exec SlabClient.step ⟨slab, []⟩ (List.replicate (2 ^ 31) .alloc) = some c ∧
      (cfiber_slab_alloc c.slab).1 = none ∧ 4096 + 2 ^ 31 * 64 ∉ c.live ∧
      ¬ SlabLaw 4096 (2147483649 * 64) 64 c := by
  have hinit : cfiber_slab_init wide 64 4096 (2147483649 * 64)
      = some ⟨4096, 64, 2147483649, fun _ => 0, 33554433⟩ := rfl
  have hfit : 4096 + 2147483649 * 64 < 2 ^ wide.WORD_BITS := by decide
  have hempty := (cfiber_slab_init_spec hinit hfit).2.2.2.2
  obtain ⟨c, hrun, hnone, hfree⟩ := (Held.start hinit hfit).overrun hempty (by decide)
  refine ⟨_, hinit, c, hrun, hnone, hfree, ?_⟩
  intro hlaw
  exact hfree (hlaw.full.mp hnone (2 ^ 31) (by decide))

end CFiber.Memory
