/-
  CFiber.Memory.Slab — the fixed-size block allocator over one memory region (`slab_alloc.c`).

  A slab carves `memory` into `block_count` blocks of `block_size` bytes and keeps one bit per
  block.  The bitmap is an array of `WORD_BITS`-bit words, scanned word by word with a complement
  and a count of trailing zeros.  Addresses are natural numbers below `2 ^ WORD_BITS` (the pointer
  width equals the bitmap word width on every supported target) and `uintptr_t` arithmetic wraps.

  The abstract reading of the bitmap is `bitAt`: the bit of block `i`.  `bitAt_set`, `bitAt_clear`
  and `bitmap_find_free_spec` say what the three bitmap operations do to it; the two spec lemmas
  `cfiber_slab_alloc_spec` and `cfiber_slab_release_spec` are all that the multislab uses.
-/
import Mathlib.Data.Finset.Card
import Mathlib.Data.Finset.Range
import Mathlib.Data.Nat.Bitwise
import Mathlib.Logic.Function.Basic
import Mathlib.Tactic.Common

namespace CFiber.Memory

/-! ## §1. Build targets. -/

/-- The build constants the allocators depend on (`macros.h`, `slab_alloc.h`). -/
structure Build where
  /-- `CFIBER_BITMAP_WORD_BITS`; also the pointer width. -/
  WORD_BITS : Nat
  /-- `CFIBER_BITMAP_SIZE`. -/
  BITMAP_SIZE : Nat
  /-- `CFIBER_CACHE_LINE_SIZE`. -/
  CACHE_LINE_SIZE : Nat
  /-- `alignof(max_align_t)`. -/
  MAX_ALIGN : Nat
  /-- `CFIBER_DEFENSIVE`. -/
  DEFENSIVE : Bool
  /-- `CFIBER_ASAN_REDZONE`; zero in a build without the address sanitizer. -/
  ASAN_REDZONE : Nat
  word_bits : WORD_BITS = 32 ∨ WORD_BITS = 64
  bitmap_size_pos : 0 < BITMAP_SIZE
  cache_line_pos : 0 < CACHE_LINE_SIZE
  asan_redzone_size : ASAN_REDZONE < 2 ^ WORD_BITS

/-- A build in which the index of every bit fits the `int` that `bitmap_find_free` returns. -/
structure Target extends Build where
  max_blocks_int : WORD_BITS * BITMAP_SIZE < 2 ^ 31

instance : Coe Target Build := ⟨Target.toBuild⟩

namespace Build

variable (T : Build)

/-- `CFIBER_SLAB_MAX_BLOCKS`, a `uint32_t`. -/
def MAX_BLOCKS : Nat := T.WORD_BITS * T.BITMAP_SIZE % 2 ^ 32

/-- `SIZE_MAX`. -/
def SIZE_MAX : Nat := 2 ^ T.WORD_BITS - 1

/-- `size_t` and `uintptr_t` arithmetic: reduction modulo `2 ^ WORD_BITS`. -/
def wrap (x : Nat) : Nat := x % 2 ^ T.WORD_BITS

theorem word_bits_pos : 0 < T.WORD_BITS := by
  rcases T.word_bits with h | h <;> omega

theorem wrap_of_lt {x : Nat} (h : x < 2 ^ T.WORD_BITS) : T.wrap x = x := Nat.mod_eq_of_lt h

/-- `x & (WORD_BITS - 1)` is the bit position of block `x` inside its word. -/
theorem land_word_bits (x : Nat) : x &&& (T.WORD_BITS - 1) = x % T.WORD_BITS := by
  rcases T.word_bits with h | h
  · rw [h]; exact Nat.and_two_pow_sub_one_eq_mod x 5
  · rw [h]; exact Nat.and_two_pow_sub_one_eq_mod x 6

theorem max_blocks_lt_uint32 : T.MAX_BLOCKS < 2 ^ 32 := Nat.mod_lt _ (by decide)

/-- The bitmap holds whole words, also where the product wraps. -/
theorem word_bits_dvd_max_blocks : T.WORD_BITS ∣ T.MAX_BLOCKS := by
  have hword : T.WORD_BITS ∣ 2 ^ 32 := by
    rcases T.word_bits with h | h
    · rw [h]; exact ⟨2 ^ 27, by decide⟩
    · rw [h]; exact ⟨2 ^ 26, by decide⟩
  exact (Nat.dvd_mod_iff hword).mpr (Nat.dvd_mul_right _ _)

/-- There is room for one more word before the count wraps. -/
theorem max_blocks_add_le : T.MAX_BLOCKS + T.WORD_BITS ≤ 2 ^ 32 := by
  obtain ⟨words, hwords⟩ := T.word_bits_dvd_max_blocks
  have hlt := T.max_blocks_lt_uint32
  rcases T.word_bits with h | h
  · rw [h] at hwords ⊢
    omega
  · rw [h] at hwords ⊢
    omega

end Build

theorem Target.max_blocks_lt (T : Target) : T.MAX_BLOCKS < 2 ^ 31 :=
  Nat.lt_of_le_of_lt (Nat.mod_le _ _) T.max_blocks_int

variable {T : Build}

/-! ## §2. The bitmap. -/

/-- The bitmap words of a slab. -/
abbrev Bitmap (T : Build) := Nat → BitVec T.WORD_BITS

/-- `INDEX_BITMAP`. -/
def INDEX_BITMAP (T : Build) (x : Nat) : Nat := x / T.WORD_BITS

/-- `INDEX_TO_BIT`. -/
def INDEX_TO_BIT (T : Build) (x : Nat) : BitVec T.WORD_BITS :=
  (1 : BitVec T.WORD_BITS) <<< (x &&& (T.WORD_BITS - 1))

def bitmap_test (bitmap : Bitmap T) (index : Nat) : Bool :=
  (bitmap (INDEX_BITMAP T index) &&& INDEX_TO_BIT T index) != 0

def bitmap_set (bitmap : Bitmap T) (index : Nat) : Bitmap T :=
  Function.update bitmap (INDEX_BITMAP T index)
    (bitmap (INDEX_BITMAP T index) ||| INDEX_TO_BIT T index)

def bitmap_clear (bitmap : Bitmap T) (index : Nat) : Bitmap T :=
  Function.update bitmap (INDEX_BITMAP T index)
    (bitmap (INDEX_BITMAP T index) &&& ~~~ INDEX_TO_BIT T index)

/-- `(int)index`, for a `uint32_t`. -/
def to_int (index : Nat) : Int := (BitVec.ofNat 32 index).toInt

/-- The loop of `bitmap_find_free` from word `i` on, with `k` words left to look at. -/
def bitmap_find_free_loop (bitmap : Bitmap T) (capacity : Nat) : (k i : Nat) → Int
  | 0, _ => -1
  | k + 1, i =>
      let inv := ~~~ bitmap i
      if inv ≠ 0 then
        let bit := inv.ctz.toNat
        let index := (i * T.WORD_BITS + bit) % 2 ^ 32
        if index < capacity then to_int index else bitmap_find_free_loop bitmap capacity k (i + 1)
      else bitmap_find_free_loop bitmap capacity k (i + 1)

def bitmap_find_free (bitmap : Bitmap T) (words capacity : Nat) : Int :=
  bitmap_find_free_loop bitmap capacity words 0

/-- The bit of block `i`. -/
def bitAt (bitmap : Bitmap T) (i : Nat) : Bool :=
  (bitmap (i / T.WORD_BITS)).getLsbD (i % T.WORD_BITS)

theorem getLsbD_INDEX_TO_BIT (x j : Nat) (hj : j < T.WORD_BITS) :
    (INDEX_TO_BIT T x).getLsbD j = decide (j = x % T.WORD_BITS) := by
  have hmod : x % T.WORD_BITS < T.WORD_BITS := Nat.mod_lt _ T.word_bits_pos
  unfold INDEX_TO_BIT
  rw [T.land_word_bits, BitVec.getLsbD_shiftLeft]
  by_cases h : j < x % T.WORD_BITS
  · simp [h, hj]; omega
  · have : (1 : BitVec T.WORD_BITS).getLsbD (j - x % T.WORD_BITS)
        = decide (j - x % T.WORD_BITS = 0) := by
      simp [BitVec.getLsbD_one, T.word_bits_pos]
    rw [this]
    simp [h, hj]; omega

/-- Two indices with the same word and the same position in it are equal. -/
theorem index_eq_of_div_mod {i j : Nat} (hd : i / T.WORD_BITS = j / T.WORD_BITS)
    (hm : i % T.WORD_BITS = j % T.WORD_BITS) : i = j := by
  rw [← Nat.div_add_mod i T.WORD_BITS, ← Nat.div_add_mod j T.WORD_BITS, hd, hm]

theorem bitAt_set (bitmap : Bitmap T) (i j : Nat) :
    bitAt (bitmap_set bitmap i) j = (decide (j = i) || bitAt bitmap j) := by
  have hj : j % T.WORD_BITS < T.WORD_BITS := Nat.mod_lt _ T.word_bits_pos
  unfold bitAt bitmap_set INDEX_BITMAP
  by_cases hd : j / T.WORD_BITS = i / T.WORD_BITS
  · rw [hd, Function.update_self, BitVec.getLsbD_or, getLsbD_INDEX_TO_BIT i _ hj, Bool.or_comm]
    congr 1
    by_cases hm : j % T.WORD_BITS = i % T.WORD_BITS
    · simp [index_eq_of_div_mod hd hm]
    · have hne : j ≠ i := fun e => hm (by rw [e])
      simp [hm, hne]
  · have hne : j ≠ i := fun e => hd (by rw [e])
    rw [Function.update_of_ne hd]
    simp [hne]

theorem bitAt_clear (bitmap : Bitmap T) (i j : Nat) :
    bitAt (bitmap_clear bitmap i) j = (!decide (j = i) && bitAt bitmap j) := by
  have hj : j % T.WORD_BITS < T.WORD_BITS := Nat.mod_lt _ T.word_bits_pos
  unfold bitAt bitmap_clear INDEX_BITMAP
  by_cases hd : j / T.WORD_BITS = i / T.WORD_BITS
  · rw [hd, Function.update_self, BitVec.getLsbD_and, BitVec.getLsbD_not,
      getLsbD_INDEX_TO_BIT i _ hj, Bool.and_comm]
    by_cases hm : j % T.WORD_BITS = i % T.WORD_BITS
    · simp [index_eq_of_div_mod hd hm]
    · have hne : j ≠ i := fun e => hm (by rw [e])
      simp [hm, hne, hj]
  · have hne : j ≠ i := fun e => hd (by rw [e])
    rw [Function.update_of_ne hd]
    simp [hne]

theorem bitmap_test_eq (bitmap : Bitmap T) (i : Nat) : bitmap_test bitmap i = bitAt bitmap i := by
  have hi : i % T.WORD_BITS < T.WORD_BITS := Nat.mod_lt _ T.word_bits_pos
  unfold bitmap_test bitAt INDEX_BITMAP
  set word := bitmap (i / T.WORD_BITS) with hword
  cases hbit : word.getLsbD (i % T.WORD_BITS) with
  | true =>
      rw [bne_iff_ne]
      intro h0
      have := congrArg (fun b => BitVec.getLsbD b (i % T.WORD_BITS)) h0
      simp [BitVec.getLsbD_and, getLsbD_INDEX_TO_BIT i _ hi, hbit] at this
  | false =>
      rw [bne_eq_false_iff_eq]
      apply BitVec.eq_of_getLsbD_eq
      intro j hj
      rw [BitVec.getLsbD_and, getLsbD_INDEX_TO_BIT i _ hj]
      by_cases hji : j = i % T.WORD_BITS
      · simp [hji, hbit]
      · simp [hji]

/-- What the scan answers: the lowest clear bit below `capacity` as an `int`, or `-1` when there is
none. -/
def FindsFree (bitmap : Bitmap T) (capacity : Nat) (r : Int) : Prop :=
  (r = -1 ∧ ∀ j < capacity, bitAt bitmap j = true) ∨
    ∃ n : Nat, r = to_int n ∧ n < capacity ∧ bitAt bitmap n = false ∧ ∀ j < n, bitAt bitmap j = true

/-- The conversion to `int` is exact below `2 ^ 31` and negative from there on. -/
theorem to_int_of_lt {n : Nat} (hn : n < 2 ^ 31) : to_int n = n := by
  unfold to_int
  rw [BitVec.toInt_eq_toNat_cond, BitVec.toNat_ofNat, Nat.mod_eq_of_lt (by omega)]
  split_ifs <;> omega

theorem to_int_neg {n : Nat} (hn : 2 ^ 31 ≤ n) (hlt : n < 2 ^ 32) : to_int n < 0 := by
  unfold to_int
  rw [BitVec.toInt_eq_toNat_cond, BitVec.toNat_ofNat, Nat.mod_eq_of_lt hlt]
  split_ifs <;> omega

/-- The bit of block `i * WORD_BITS + b` is bit `b` of word `i`. -/
theorem bitAt_word (bitmap : Bitmap T) (i b : Nat) (hb : b < T.WORD_BITS) :
    bitAt bitmap (i * T.WORD_BITS + b) = (bitmap i).getLsbD b := by
  unfold bitAt
  have hdiv : (i * T.WORD_BITS + b) / T.WORD_BITS = i := by
    rw [Nat.mul_comm, Nat.mul_add_div T.word_bits_pos, Nat.div_eq_of_lt hb, Nat.add_zero]
  have hmod : (i * T.WORD_BITS + b) % T.WORD_BITS = b := by
    rw [Nat.mul_comm, Nat.mul_add_mod, Nat.mod_eq_of_lt hb]
  rw [hdiv, hmod]

/-- Every bit of word `i` below the lowest clear one is set. -/
theorem bitAt_below_ctz (bitmap : Bitmap T) (i j : Nat) (hlo : i * T.WORD_BITS ≤ j)
    (hhi : j < i * T.WORD_BITS + (~~~ bitmap i).ctz.toNat)
    (hctz : (~~~ bitmap i).ctz.toNat ≤ T.WORD_BITS) : bitAt bitmap j = true := by
  obtain ⟨b, rfl⟩ := Nat.exists_eq_add_of_le hlo
  have hb : b < (~~~ bitmap i).ctz.toNat := by omega
  rw [bitAt_word _ _ _ (by omega)]
  have := BitVec.getLsbD_false_of_lt_ctz hb
  simpa [show b < T.WORD_BITS by omega] using this

/-- **The scan finds the lowest free block.**  Loop invariant: every block below word `i` is taken,
and the words still to look at cover the capacity. -/
theorem bitmap_find_free_loop_spec (bitmap : Bitmap T) (capacity : Nat) :
    ∀ (k i : Nat), capacity ≤ (i + k) * T.WORD_BITS → (i + k) * T.WORD_BITS ≤ 2 ^ 32 →
      (∀ j < i * T.WORD_BITS, j < capacity → bitAt bitmap j = true) →
      FindsFree bitmap capacity (bitmap_find_free_loop bitmap capacity k i) := by
  intro k
  induction k with
  | zero =>
      intro i hcap _ hset
      exact Or.inl ⟨rfl, fun j hj => hset j (by simpa using lt_of_lt_of_le hj hcap) hj⟩
  | succ k ih =>
      intro i hcap hsmall hset
      have hshift : i + 1 + k = i + (k + 1) := by omega
      have hcap' : capacity ≤ (i + 1 + k) * T.WORD_BITS := by rw [hshift]; exact hcap
      have hsmall' : (i + 1 + k) * T.WORD_BITS ≤ 2 ^ 32 := by rw [hshift]; exact hsmall
      have hword : (i + 1) * T.WORD_BITS ≤ 2 ^ 32 :=
        le_trans (Nat.mul_le_mul_right _ (by omega)) hsmall'
      -- the index of a bit of this word does not wrap
      have hindex : ∀ b < T.WORD_BITS, (i * T.WORD_BITS + b) % 2 ^ 32 = i * T.WORD_BITS + b := by
        intro b hb
        rw [Nat.succ_mul] at hword
        exact Nat.mod_eq_of_lt (by omega)
      have hnext : (i + 1) * T.WORD_BITS = i * T.WORD_BITS + T.WORD_BITS := Nat.succ_mul _ _
      simp only [bitmap_find_free_loop]
      split_ifs with hinv hlt
      · -- the lowest clear bit of this word is below the capacity
        have hclear := BitVec.getLsbD_true_ctz_of_ne_zero hinv
        have hbit : (~~~ bitmap i).ctz.toNat < T.WORD_BITS := BitVec.lt_of_getLsbD hclear
        have hfree : (bitmap i).getLsbD (~~~ bitmap i).ctz.toNat = false := by
          simpa [hbit] using hclear
        rw [hindex _ hbit] at hlt ⊢
        refine Or.inr ⟨_, rfl, hlt, by rw [bitAt_word _ _ _ hbit]; exact hfree, ?_⟩
        intro j hj
        by_cases hjw : j < i * T.WORD_BITS
        · exact hset j hjw (by omega)
        · exact bitAt_below_ctz bitmap i j (by omega) hj (by omega)
      · -- the lowest clear bit lies in the tail beyond the capacity
        have hclear := BitVec.getLsbD_true_ctz_of_ne_zero hinv
        have hbit : (~~~ bitmap i).ctz.toNat < T.WORD_BITS := BitVec.lt_of_getLsbD hclear
        rw [hindex _ hbit] at hlt
        refine ih (i + 1) hcap' hsmall' (fun j _ hjc => ?_)
        by_cases hjw : j < i * T.WORD_BITS
        · exact hset j hjw hjc
        · exact bitAt_below_ctz bitmap i j (by omega) (by omega) (by omega)
      · -- every bit of this word is set
        refine ih (i + 1) hcap' hsmall' (fun j hj hjc => ?_)
        by_cases hjw : j < i * T.WORD_BITS
        · exact hset j hjw hjc
        · obtain ⟨b, rfl⟩ := Nat.exists_eq_add_of_le (Nat.not_lt.mp hjw)
          have hb : b < T.WORD_BITS := by omega
          rw [bitAt_word _ _ _ hb]
          have hzero : ~~~ bitmap i = 0 := by simpa using hinv
          have := congrArg (fun w => BitVec.getLsbD w b) hzero
          simpa [hb] using this

theorem bitmap_find_free_spec (bitmap : Bitmap T) (words capacity : Nat)
    (hwords : capacity ≤ words * T.WORD_BITS) (hsmall : words * T.WORD_BITS ≤ 2 ^ 32) :
    FindsFree bitmap capacity (bitmap_find_free bitmap words capacity) :=
  bitmap_find_free_loop_spec bitmap capacity words 0 (by simpa using hwords)
    (by simpa using hsmall) (by simp)

/-! ## §3. The slab. -/

/-- `cfiber_slab_t`. -/
structure Slab (T : Build) where
  memory : Nat
  block_size : Nat
  block_count : Nat
  bitmap : Bitmap T
  bitmap_count : Nat

def ptr_to_index (slab : Slab T) (ptr : Nat) : Nat :=
  T.wrap (ptr + 2 ^ T.WORD_BITS - slab.memory) / slab.block_size % 2 ^ 32

def index_to_ptr (slab : Slab T) (index : Nat) : Nat :=
  T.wrap (slab.memory + T.wrap (index * slab.block_size))

/-- `none` is the `-1` return; the failed assertions are compiled out. -/
def cfiber_slab_init (T : Build) (block_size : Nat) (memory : Nat) (memory_size : Nat) :
    Option (Slab T) :=
  if block_size = 0 ∨ block_size % T.CACHE_LINE_SIZE ≠ 0 ∨ memory_size < block_size then none
  else if memory % T.MAX_ALIGN ≠ 0 then none
  else
    let count := memory_size / block_size
    if count > T.MAX_BLOCKS then none
    else some
      { memory := memory
        block_size := block_size
        block_count := count
        bitmap_count := (count + T.WORD_BITS - 1) % 2 ^ 32 / T.WORD_BITS
        bitmap := fun _ => 0 }

def cfiber_slab_alloc (slab : Slab T) : Option Nat × Slab T :=
  let index := bitmap_find_free slab.bitmap slab.bitmap_count slab.block_count
  if index < 0 then (none, slab)
  else
    (some (index_to_ptr slab index.toNat),
      { slab with bitmap := bitmap_set slab.bitmap index.toNat })

def cfiber_slab_release (slab : Slab T) (block : Nat) : Bool × Slab T :=
  let total_memory_size := T.wrap (slab.block_size * slab.block_count)
  let base := slab.memory
  if T.DEFENSIVE ∧ (block < base ∨ block ≥ T.wrap (base + total_memory_size)) then (false, slab)
  else if T.DEFENSIVE ∧ (block - base) % slab.block_size ≠ 0 then (false, slab)
  else
    let index := ptr_to_index slab block
    if T.DEFENSIVE ∧ !bitmap_test slab.bitmap index then (false, slab)
    else (true, { slab with bitmap := bitmap_clear slab.bitmap index })

def cfiber_slab_reset (slab : Slab T) : Slab T := { slab with bitmap := fun _ => 0 }

/-! ## §4. Well-formed slabs and what the operations do to them. -/

/-- The address of block `i`. -/
def Slab.block (slab : Slab T) (i : Nat) : Nat := slab.memory + i * slab.block_size

/-- Block `i` is allocated. -/
def Slab.used (slab : Slab T) (i : Nat) : Bool := bitAt slab.bitmap i

/-- The representation invariant of a slab. -/
structure Slab.Ok (slab : Slab T) : Prop where
  block_size_pos : 0 < slab.block_size
  count_le : slab.block_count ≤ T.MAX_BLOCKS
  words : slab.block_count ≤ slab.bitmap_count * T.WORD_BITS
  words_le : slab.bitmap_count * T.WORD_BITS ≤ T.MAX_BLOCKS
  fits : slab.memory + slab.block_count * slab.block_size < 2 ^ T.WORD_BITS
  tail : ∀ i, slab.block_count ≤ i → slab.used i = false

/-- The number of set bits of the bitmap words of a slab. -/
def Slab.popcount (slab : Slab T) : Nat :=
  ((Finset.range T.MAX_BLOCKS).filter fun i => slab.used i = true).card

theorem Slab.block_lt {slab : Slab T} {i : Nat} (hi : i < slab.block_count) :
    slab.block i + slab.block_size ≤ slab.memory + slab.block_count * slab.block_size := by
  unfold Slab.block
  have : (i + 1) * slab.block_size ≤ slab.block_count * slab.block_size :=
    Nat.mul_le_mul_right _ hi
  rw [Nat.succ_mul] at this
  omega

theorem Slab.block_inj {slab : Slab T} (h : slab.Ok) {i j : Nat} (e : slab.block i = slab.block j) :
    i = j := by
  unfold Slab.block at e
  exact Nat.eq_of_mul_eq_mul_right h.block_size_pos (by omega)

theorem index_to_ptr_eq {slab : Slab T} (h : slab.Ok) {i : Nat} (hi : i < slab.block_count) :
    index_to_ptr slab i = slab.block i := by
  have hlt := Slab.block_lt hi
  have hfit := h.fits
  unfold index_to_ptr
  unfold Slab.block at hlt ⊢
  rw [T.wrap_of_lt (x := i * slab.block_size) (by omega), T.wrap_of_lt (by omega)]

theorem ptr_to_index_block {slab : Slab T} (h : slab.Ok) {i : Nat} (hi : i < slab.block_count) :
    ptr_to_index slab (slab.block i) = i := by
  have hlt := Slab.block_lt hi
  have hfit := h.fits
  have hcount := h.count_le
  have hmax := T.max_blocks_lt_uint32
  have hpos := h.block_size_pos
  unfold ptr_to_index Build.wrap
  unfold Slab.block at hlt ⊢
  have hsub : slab.memory + i * slab.block_size + 2 ^ T.WORD_BITS - slab.memory
      = i * slab.block_size + 2 ^ T.WORD_BITS := by omega
  rw [hsub, Nat.add_mod_right, Nat.mod_eq_of_lt (a := i * slab.block_size) (by omega),
    Nat.mul_div_cancel _ hpos, Nat.mod_eq_of_lt (by omega)]

/-- A fresh slab is well formed, empty, and describes the region it was given. -/
theorem cfiber_slab_init_spec {block_size memory memory_size : Nat} {slab : Slab T}
    (h : cfiber_slab_init T block_size memory memory_size = some slab)
    (hfit : memory + memory_size < 2 ^ T.WORD_BITS) :
    slab.Ok ∧ slab.memory = memory ∧ slab.block_size = block_size ∧
      slab.block_count = memory_size / block_size ∧ ∀ i, slab.used i = false := by
  simp only [cfiber_slab_init] at h
  split_ifs at h with hbad halign hcount
  obtain rfl := Option.some.inj h
  have hpos : 0 < block_size := by omega
  have hused : ∀ i : Nat, bitAt (T := T) (fun _ => 0) i = false := by
    intro i; simp [bitAt]
  have hle : memory_size / block_size ≤ T.MAX_BLOCKS := by simpa using hcount
  obtain ⟨words, hwords⟩ := T.word_bits_dvd_max_blocks
  have hw := T.word_bits_pos
  have hlt := T.max_blocks_lt_uint32
  have hstep : T.MAX_BLOCKS + T.WORD_BITS ≤ 2 ^ 32 := T.max_blocks_add_le
  have hround : (memory_size / block_size + T.WORD_BITS - 1) % 2 ^ 32
      = memory_size / block_size + T.WORD_BITS - 1 := Nat.mod_eq_of_lt (by omega)
  have hdiv := Nat.div_add_mod (memory_size / block_size + T.WORD_BITS - 1) T.WORD_BITS
  have hmod := Nat.mod_lt (memory_size / block_size + T.WORD_BITS - 1) hw
  rw [Nat.mul_comm] at hdiv
  refine ⟨⟨hpos, hle, ?_, ?_, ?_, fun i _ => hused i⟩, rfl, rfl, rfl, hused⟩
  · show memory_size / block_size ≤
      (memory_size / block_size + T.WORD_BITS - 1) % 2 ^ 32 / T.WORD_BITS * T.WORD_BITS
    rw [hround]
    omega
  · -- the last word starts inside the bitmap
    show (memory_size / block_size + T.WORD_BITS - 1) % 2 ^ 32 / T.WORD_BITS * T.WORD_BITS
      ≤ T.MAX_BLOCKS
    rw [hround, hwords, Nat.mul_comm T.WORD_BITS]
    apply Nat.mul_le_mul_right
    apply Nat.le_of_lt_succ
    rw [Nat.div_lt_iff_lt_mul hw, Nat.succ_mul]
    rw [Nat.mul_comm] at hwords
    omega
  · have := Nat.div_mul_le_self memory_size block_size
    show memory + memory_size / block_size * block_size < _
    omega

/-- The slab after block `i` is taken. -/
def Slab.take (slab : Slab T) (i : Nat) : Slab T :=
  { slab with bitmap := bitmap_set slab.bitmap i }

/-- The slab after block `i` is given back. -/
def Slab.give (slab : Slab T) (i : Nat) : Slab T :=
  { slab with bitmap := bitmap_clear slab.bitmap i }

@[simp] theorem Slab.used_take (slab : Slab T) (i j : Nat) :
    (slab.take i).used j = (decide (j = i) || slab.used j) := bitAt_set _ _ _

@[simp] theorem Slab.used_give (slab : Slab T) (i j : Nat) :
    (slab.give i).used j = (!decide (j = i) && slab.used j) := bitAt_clear _ _ _

theorem Slab.Ok.take {slab : Slab T} (h : slab.Ok) {i : Nat} (hi : i < slab.block_count) :
    (slab.take i).Ok where
  block_size_pos := h.block_size_pos
  count_le := h.count_le
  words := h.words
  words_le := h.words_le
  fits := h.fits
  tail j hj := by
    have hj' : slab.block_count ≤ j := hj
    rw [Slab.used_take, h.tail j hj']
    simp only [Bool.or_false, decide_eq_false_iff_not]
    omega

theorem Slab.Ok.give {slab : Slab T} (h : slab.Ok) (i : Nat) : (slab.give i).Ok where
  block_size_pos := h.block_size_pos
  count_le := h.count_le
  words := h.words
  words_le := h.words_le
  fits := h.fits
  tail j hj := by rw [Slab.used_give, h.tail j hj, Bool.and_false]

theorem Slab.popcount_take {slab : Slab T} {i : Nat} (hi : i < T.MAX_BLOCKS)
    (hfree : slab.used i = false) : (slab.take i).popcount = slab.popcount + 1 := by
  unfold Slab.popcount
  have hinsert : (Finset.range T.MAX_BLOCKS).filter (fun j => (slab.take i).used j = true)
      = insert i ((Finset.range T.MAX_BLOCKS).filter fun j => slab.used j = true) := by
    ext j
    by_cases hj : j = i
    · simp [hj, hi]
    · simp [hj]
  rw [hinsert, Finset.card_insert_of_notMem (by simp [hfree])]

theorem Slab.popcount_give {slab : Slab T} {i : Nat} (hi : i < T.MAX_BLOCKS)
    (hused : slab.used i = true) : (slab.give i).popcount + 1 = slab.popcount := by
  have hback : slab.popcount = ((slab.give i).take i).popcount := by
    unfold Slab.popcount
    congr 1
    ext j
    by_cases hj : j = i
    · simp [hj, hused]
    · simp [hj]
  rw [hback, Slab.popcount_take hi (by simp)]

theorem Slab.Ok.popcount_le {slab : Slab T} (h : slab.Ok) : slab.popcount ≤ slab.block_count := by
  unfold Slab.popcount
  have hsub : (Finset.range T.MAX_BLOCKS).filter (fun j => slab.used j = true)
      ⊆ Finset.range slab.block_count := by
    intro j hj
    simp only [Finset.mem_filter, Finset.mem_range] at hj ⊢
    by_contra hge
    rw [h.tail j (by omega)] at hj
    exact absurd hj.2 (by simp)
  simpa using Finset.card_le_card hsub

theorem Slab.Ok.popcount_eq_zero {slab : Slab T} (h : slab.Ok) :
    slab.popcount = 0 ↔ ∀ i < slab.block_count, slab.used i = false := by
  unfold Slab.popcount
  rw [Finset.card_eq_zero, Finset.filter_eq_empty_iff]
  have hcount := h.count_le
  constructor
  · intro hall i hi
    have := hall (Finset.mem_range.mpr (Nat.lt_of_lt_of_le hi hcount))
    simpa using this
  · intro hall i _
    by_cases hi : i < slab.block_count
    · simp [hall i hi]
    · simp [h.tail i (by omega)]

theorem Slab.Ok.scan {slab : Slab T} (h : slab.Ok) : FindsFree slab.bitmap slab.block_count
    (bitmap_find_free slab.bitmap slab.bitmap_count slab.block_count) :=
  bitmap_find_free_spec _ _ _ h.words (le_trans h.words_le (le_of_lt T.max_blocks_lt_uint32))

/-- **Allocation in any build.**  The lowest free block is returned if its index fits an `int`;
otherwise the answer is null, as it is when every block is taken. -/
theorem cfiber_slab_alloc_cases {slab : Slab T} (h : slab.Ok) :
    (cfiber_slab_alloc slab = (none, slab) ∧ ∀ j < slab.block_count, slab.used j = true) ∨
    ∃ i < slab.block_count, slab.used i = false ∧ (∀ j < i, slab.used j = true) ∧
      cfiber_slab_alloc slab =
        if i < 2 ^ 31 then (some (slab.block i), slab.take i) else (none, slab) := by
  unfold cfiber_slab_alloc
  rcases h.scan with ⟨hr, hall⟩ | ⟨n, hr, hn, hfree, hbelow⟩
  · exact Or.inl ⟨by simp [hr], hall⟩
  · refine Or.inr ⟨n, hn, hfree, hbelow, ?_⟩
    simp only [hr]
    by_cases hint : n < 2 ^ 31
    · rw [to_int_of_lt hint, if_pos hint, if_neg (by omega)]
      simp only [Int.toNat_natCast, index_to_ptr_eq h hn]
      rfl
    · -- the index does not fit, and the `int` is negative
      have huint : n < 2 ^ 32 :=
        lt_of_lt_of_le hn (le_trans h.count_le (le_of_lt T.max_blocks_lt_uint32))
      rw [if_neg hint, if_pos (to_int_neg (by omega) huint)]

/-- **Allocation.**  The lowest free block, or null exactly when every block is taken. -/
theorem cfiber_slab_alloc_spec {T : Target} {slab : Slab T} (h : slab.Ok) :
    (cfiber_slab_alloc slab = (none, slab) ∧ ∀ j < slab.block_count, slab.used j = true) ∨
    ∃ i < slab.block_count, slab.used i = false ∧ (∀ j < i, slab.used j = true) ∧
      cfiber_slab_alloc slab = (some (slab.block i), slab.take i) := by
  rcases cfiber_slab_alloc_cases h with hfull | ⟨i, hi, hfree, hbelow, heq⟩
  · exact Or.inl hfull
  · refine Or.inr ⟨i, hi, hfree, hbelow, ?_⟩
    have hint : i < 2 ^ 31 :=
      lt_of_lt_of_le hi (le_trans h.count_le (le_of_lt T.max_blocks_lt))
    rw [heq, if_pos hint]

/-- **Release of an allocated block** clears its bit, with or without the defensive checks. -/
theorem cfiber_slab_release_spec {slab : Slab T} (h : slab.Ok) {i : Nat}
    (hi : i < slab.block_count) (hused : slab.used i = true) :
    cfiber_slab_release slab (slab.block i) = (true, slab.give i) := by
  have hlt := Slab.block_lt hi
  have hfit := h.fits
  have hpos := h.block_size_pos
  have htotal : T.wrap (slab.block_size * slab.block_count)
      = slab.block_count * slab.block_size := by
    rw [Nat.mul_comm, T.wrap_of_lt (by omega)]
  have hbase : slab.memory ≤ slab.block i := by unfold Slab.block; omega
  have hoff : (slab.block i - slab.memory) % slab.block_size = 0 := by
    unfold Slab.block
    rw [Nat.add_sub_cancel_left, Nat.mul_mod_left]
  have htest : bitmap_test slab.bitmap i = true := by rw [bitmap_test_eq]; exact hused
  unfold cfiber_slab_release
  simp only [htotal, T.wrap_of_lt hfit, ptr_to_index_block h hi, htest, hoff]
  rw [if_neg (by omega), if_neg (by simp), if_neg (by simp)]
  rfl

end CFiber.Memory
