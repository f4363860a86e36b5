/-
  CFiber.Stacks.Watermark — the canary and the watermark of a stack (`canary.c`, `watermark.c`).

  The canary is a known word at the bottom of the block; everything above it is painted.  What the
  fiber wrote since is read off the bytes: the canary's value, and the lowest byte that lost the
  paint.  `Measured` says what the three functions answer in these terms, for any bytes at all.

  `stack_size` bytes of the block are the fiber's, from its bottom, and its stack begins at `top`
  inside them; the measure counts from the end of the block.
-/
import CFiber.Base.Scan
import CFiber.Context.Bytes
import CFiber.Stacks.Growable

namespace CFiber.Stacks

open CFiber.Base CFiber.Memory
open CFiber.Context (Mem read write read_congr read_write Within)

variable {T : Target} {s : Stack}

/-! ## §1. The functions. -/

def CFIBER_CANARY_VALUE : Nat := 0xC5C4C3C2C1C0B0A0

/-- The byte the watermark region is painted with. -/
def PAINT : Fin 256 := ⟨0xA5, by decide⟩

/-- `!s->mem_base || !s->stack_top`. -/
def unset (s : Stack) : Bool := s.mem_base.isNone || s.stack_top == 0

def cfiber_stack_debug_canary_addr (s : Stack) : Nat := s.mem_base.getD 0

def cfiber_stack_debug_watermark_begin (T : Target) (s : Stack) : Nat :=
  T.wrap (cfiber_stack_debug_canary_addr s + 8)

def cfiber_stack_debug_watermark_end (s : Stack) : Nat := s.stack_top

def cfiber_stack_debug_watermark_size (T : Target) (s : Stack) : Nat :=
  let begin := cfiber_stack_debug_watermark_begin T s
  if cfiber_stack_debug_watermark_end s > begin then cfiber_stack_debug_watermark_end s - begin
  else 0

def canary_read (m : Mem) (s : Stack) : Nat := read m (cfiber_stack_debug_canary_addr s) 8

/-- Writes canary and paints watermark region. -/
def cfiber_stack_debug_init (T : Target) (m : Mem) (s : Stack) : Mem :=
  if unset s then m
  else
    let m := write m (cfiber_stack_debug_canary_addr s) 8 CFIBER_CANARY_VALUE
    let p := cfiber_stack_debug_watermark_begin T s
    let n := cfiber_stack_debug_watermark_size T s
    fill m p n PAINT

def cfiber_stack_debug_check_canary (m : Mem) (s : Stack) : Bool :=
  if unset s then false else canary_read m s = CFIBER_CANARY_VALUE

def cfiber_stack_debug_used_bytes (T : Target) (m : Mem) (s : Stack) : Nat :=
  if unset s then 0
  else if !cfiber_stack_debug_check_canary m s then T.SIZE_MAX
  else
    let begin := cfiber_stack_debug_watermark_begin T s
    let n := cfiber_stack_debug_watermark_size T s
    n - scan m begin PAINT n 0

def cfiber_stack_debug_overflowed (T : Target) (m : Mem) (s : Stack) : Bool :=
  let used := cfiber_stack_debug_used_bytes T m s
  used = T.SIZE_MAX || used = cfiber_stack_debug_watermark_size T s

/-! ## §2. What they answer. -/

/-- The addresses above the canary whose byte is not the paint. -/
def unpainted (T : Target) (m : Mem) (s : Stack) : Set Nat :=
  differs m (cfiber_stack_debug_watermark_begin T s) (cfiber_stack_debug_watermark_size T s) PAINT

/-- **The watermark**, for a stack that begins at `top`, when its bytes are those of `m` and were
those of `before` at first.  `slack` bytes of the block are not the fiber's, and `lost` of the
fiber's are above `top`. -/
structure Measured (T : Target) (s : Stack) (top slack lost : Nat) (before m : Mem) : Prop where
  gone : cfiber_stack_debug_used_bytes T m s = T.SIZE_MAX ↔ canary_read m s ≠ canary_read before s
  lowest : canary_read m s = canary_read before s → ∀ low, IsLeast (unpainted T m s) low →
    cfiber_stack_debug_used_bytes T m s = s.stack_top - low ∧
    (top : Int) - low ≤ cfiber_stack_debug_used_bytes T m s ∧
    (cfiber_stack_debug_used_bytes T m s : Int) ≤ top - low + slack + lost
  untouched : canary_read m s = canary_read before s → unpainted T m s = ∅ →
    cfiber_stack_debug_used_bytes T m s = 0
  overflowed : cfiber_stack_debug_overflowed T m s = true ↔
    canary_read m s ≠ canary_read before s ∨ m (cfiber_stack_debug_watermark_begin T s) ≠ PAINT

/-- The descriptor of the block of `size` bytes at `base`: there is room for more than the canary. -/
structure Whole (T : Target) (s : Stack) (base size : Nat) : Prop where
  mem_base : s.mem_base = some base
  stack_top : s.stack_top = base + size
  room : 8 < size
  fits : base + size < 2 ^ T.WORD_BITS

section
variable {base size : Nat}

theorem Whole.set (h : Whole T s base size) : unset s = false := by
  have hroom := h.room
  simp only [unset, h.mem_base, h.stack_top, Option.isNone_some, Bool.false_or, beq_eq_false_iff_ne]
  omega

theorem Whole.canary_addr (h : Whole T s base size) : cfiber_stack_debug_canary_addr s = base := by
  unfold cfiber_stack_debug_canary_addr
  rw [h.mem_base]
  rfl

theorem Whole.begin (h : Whole T s base size) :
    cfiber_stack_debug_watermark_begin T s = base + 8 := by
  have hroom := h.room
  have hfits := h.fits
  unfold cfiber_stack_debug_watermark_begin
  rw [h.canary_addr, T.wrap_of_lt (by omega)]

theorem Whole.watermark_size (h : Whole T s base size) :
    cfiber_stack_debug_watermark_size T s = size - 8 := by
  have hroom := h.room
  unfold cfiber_stack_debug_watermark_size cfiber_stack_debug_watermark_end
  dsimp only
  rw [h.begin, h.stack_top, if_pos (by omega)]
  omega

/-- **The canary is planted**, and the paint does not reach it. -/
theorem Whole.init_canary (h : Whole T s base size) (m : Mem) :
    canary_read (cfiber_stack_debug_init T m s) s = CFIBER_CANARY_VALUE := by
  unfold cfiber_stack_debug_init canary_read
  rw [h.set, h.canary_addr, h.begin]
  have hframe : read (fill (write m base 8 CFIBER_CANARY_VALUE) (base + 8)
      (cfiber_stack_debug_watermark_size T s) PAINT) base 8 =
      read (write m base 8 CFIBER_CANARY_VALUE) base 8 := by
    apply read_congr
    rintro x ⟨hge, hlt⟩
    rw [fill_apply, if_neg (by omega)]
  show read (fill _ _ _ _) base 8 = _
  rw [hframe, read_write]
  rfl

/-- The measure of an intact canary. -/
theorem Whole.used_bytes (h : Whole T s base size) {m : Mem}
    (hc : canary_read m s = CFIBER_CANARY_VALUE) :
    cfiber_stack_debug_used_bytes T m s = (size - 8) - scan m (base + 8) PAINT (size - 8) 0 := by
  unfold cfiber_stack_debug_used_bytes cfiber_stack_debug_check_canary
  rw [h.set, h.begin, h.watermark_size]
  simp [hc]

theorem Whole.used_bytes_gone (h : Whole T s base size) {m : Mem}
    (hc : canary_read m s ≠ CFIBER_CANARY_VALUE) :
    cfiber_stack_debug_used_bytes T m s = T.SIZE_MAX := by
  unfold cfiber_stack_debug_used_bytes cfiber_stack_debug_check_canary
  rw [h.set]
  simp [hc]

/-- A measure is less than the block, and no block is the whole address space. -/
theorem Whole.used_bytes_lt (h : Whole T s base size) {m : Mem}
    (hc : canary_read m s = CFIBER_CANARY_VALUE) :
    cfiber_stack_debug_used_bytes T m s < T.SIZE_MAX := by
  have hroom := h.room
  have hfits := h.fits
  rw [h.used_bytes hc]
  unfold Build.SIZE_MAX
  omega

/-- **The overflow check.** -/
theorem Whole.overflowed_iff (h : Whole T s base size) (m : Mem) :
    cfiber_stack_debug_overflowed T m s = true ↔
      canary_read m s ≠ CFIBER_CANARY_VALUE ∨ m (base + 8) ≠ PAINT := by
  have hroom := h.room
  unfold cfiber_stack_debug_overflowed
  simp only [Bool.or_eq_true, decide_eq_true_eq]
  by_cases hc : canary_read m s = CFIBER_CANARY_VALUE
  · have hlt := h.used_bytes_lt hc
    have hscan := scan_eq_zero (m := m) (p := base + 8) (b := PAINT) (n := size - 8) (by omega)
    rw [or_iff_right (Nat.ne_of_lt hlt), or_iff_right (not_not_intro hc), h.watermark_size,
      h.used_bytes hc, ← hscan]
    omega
  · exact iff_of_true (Or.inl (h.used_bytes_gone hc)) (Or.inl hc)

/-- **Any bytes are measured as they should be.** -/
theorem Whole.measured (h : Whole T s base size) {top stack_size : Nat} (hsize : stack_size ≤ size)
    (htop : top ≤ base + stack_size) (before m : Mem) :
    Measured T s top (size - stack_size) (base + stack_size - top)
      (cfiber_stack_debug_init T before s) m := by
  have hroom := h.room
  constructor
  · rw [h.init_canary]
    constructor
    · intro hmax hc
      exact Nat.ne_of_lt (h.used_bytes_lt hc) hmax
    · exact h.used_bytes_gone
  · rw [h.init_canary]
    intro hc low hlow
    unfold unpainted at hlow
    rw [h.begin, h.watermark_size] at hlow
    have hscan := scan_isLeast hlow
    obtain ⟨hge, hlt, -⟩ := hlow.1
    have hused : cfiber_stack_debug_used_bytes T m s = base + size - low := by
      rw [h.used_bytes hc]
      omega
    rw [hused, h.stack_top]
    omega
  · rw [h.init_canary]
    intro hc hnone
    unfold unpainted at hnone
    rw [h.begin, h.watermark_size] at hnone
    rw [h.used_bytes hc, scan_all hnone, Nat.sub_self]
  · rw [h.init_canary, h.begin]
    exact h.overflowed_iff m

end

end CFiber.Stacks
