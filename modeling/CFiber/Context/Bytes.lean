/-
  CFiber.Context.Bytes — numbers in a byte-addressed memory.

  A memory is a map from addresses to bytes.  `write m a n v` stores the low `n` bytes of `v` at
  `a`, the least significant first, and `read m a n` takes them out again:

    • `read_write` — what was stored is read back;
    • `read_congr` — a read depends on its own bytes only;
    • `read_inj`   — and tells them;
    • `write_of_not_mem` — a write changes its own bytes only.

  Nothing here names a program.
-/
import Mathlib.Data.Nat.Digits.Defs
import Mathlib.Tactic.Ring

namespace CFiber.Context

abbrev Mem := Nat → Fin 256

/-- The `n` bytes from `a` on. -/
def Within (a n x : Nat) : Prop := a ≤ x ∧ x < a + n

instance (a n x : Nat) : Decidable (Within a n x) := inferInstanceAs (Decidable (_ ∧ _))

/-- Two stretches of memory without a byte in common. -/
def Apart (a n b k : Nat) : Prop := a + n ≤ b ∨ b + k ≤ a

instance (a n b k : Nat) : Decidable (Apart a n b k) := inferInstanceAs (Decidable (_ ∨ _))

def byte (v i : Nat) : Fin 256 := Fin.ofNat 256 (v / 256 ^ i)

def write (m : Mem) (a n v : Nat) : Mem := fun x => if Within a n x then byte v (x - a) else m x

def read (m : Mem) (a : Nat) : Nat → Nat
  | 0 => 0
  | n + 1 => (m a).val + 256 * read m (a + 1) n

theorem write_of_not_mem {m : Mem} {a n v x : Nat} (h : ¬ Within a n x) :
    write m a n v x = m x := if_neg h

theorem read_lt (m : Mem) (a n : Nat) : read m a n < 256 ^ n := by
  induction n generalizing a with
  | zero => simp [read]
  | succ n ih =>
      have h := ih (a + 1)
      have hb := (m a).isLt
      unfold read
      rw [Nat.pow_succ]
      omega

theorem read_congr {m m' : Mem} {a n : Nat} (h : ∀ x, Within a n x → m x = m' x) :
    read m a n = read m' a n := by
  induction n generalizing a with
  | zero => rfl
  | succ n ih =>
      unfold read
      rw [h a ⟨Nat.le_refl a, by omega⟩]
      rw [ih fun x hx => h x ⟨by have := hx.1; omega, by have := hx.2; omega⟩]

/-- **A read tells the bytes**, by induction on them. -/
theorem read_inj {m m' : Mem} {a n : Nat} (h : read m a n = read m' a n) {x : Nat}
    (hx : Within a n x) : m x = m' x := by
  induction n generalizing a with
  | zero =>
      obtain ⟨hge, hlt⟩ := hx
      omega
  | succ n ih =>
      unfold read at h
      have hb := (m a).isLt
      have hb' := (m' a).isLt
      by_cases hxa : x = a
      · rw [hxa]
        apply Fin.ext
        omega
      · obtain ⟨hge, hlt⟩ := hx
        apply ih (a := a + 1)
        · omega
        · exact ⟨by omega, by omega⟩

/-- A read of bytes that spell `v`. -/
theorem read_of_bytes {m : Mem} {a n v : Nat} (h : ∀ i < n, m (a + i) = byte v i) :
    read m a n = v % 256 ^ n := by
  induction n generalizing a v with
  | zero => simp [read, Nat.mod_one]
  | succ n ih =>
      have htail : read m (a + 1) n = v / 256 % 256 ^ n := by
        apply ih
        intro i hi
        have hb := h (i + 1) (by omega)
        unfold byte at hb ⊢
        rw [show a + 1 + i = a + (i + 1) by omega, hb, Nat.div_div_eq_div_mul, Nat.pow_succ']
      have hhead : (m a).val = v % 256 := by
        have hb := h 0 (by omega)
        rw [Nat.add_zero] at hb
        rw [hb]
        simp [byte, Fin.ofNat]
      unfold read
      rw [htail, hhead, Nat.pow_succ', Nat.mod_mul]

/-- **What was stored is read back.** -/
theorem read_write (m : Mem) (a n v : Nat) : read (write m a n v) a n = v % 256 ^ n := by
  apply read_of_bytes
  intro i hi
  unfold write
  rw [if_pos ⟨by omega, by omega⟩, Nat.add_sub_cancel_left]

/-- A write elsewhere does not matter. -/
theorem read_write_apart {m : Mem} {a n v b k : Nat} (h : Apart a n b k) :
    read (write m a n v) b k = read m b k := by
  apply read_congr
  intro x hx
  apply write_of_not_mem
  unfold Within at hx ⊢
  unfold Apart at h
  omega

end CFiber.Context
