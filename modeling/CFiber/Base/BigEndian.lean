/-
  CFiber.Base.BigEndian — numbers as bytes, most significant byte first.

    • `of_be_be` — a number that fits comes back from its bytes;
    • `be_of_be` — bytes come back from their number.
-/
import Mathlib.Algebra.Group.Nat.Defs
import Mathlib.Data.List.Induction

namespace CFiber.Base

/-- The `k` low bytes of a number. -/
def be : (k n : Nat) → List UInt8
  | 0, _ => []
  | k + 1, n => be k (n / 256) ++ [UInt8.ofNat n]

def of_be (l : List UInt8) : Nat := l.foldl (fun n b => n * 256 + b.toNat) 0

@[simp] theorem be_length (k n : Nat) : (be k n).length = k := by
  induction k generalizing n with
  | zero => rfl
  | succ k ih => rw [be, List.length_append, ih, List.length_singleton]

theorem of_be_snoc (l : List UInt8) (b : UInt8) : of_be (l ++ [b]) = of_be l * 256 + b.toNat := by
  rw [of_be, List.foldl_append]
  rfl

/-- A number that fits, by induction on its bytes. -/
theorem of_be_be {k n : Nat} (h : n < 256 ^ k) : of_be (be k n) = n := by
  induction k generalizing n with
  | zero =>
      rw [Nat.pow_zero] at h
      obtain rfl : n = 0 := by omega
      rfl
  | succ k ih =>
      rw [Nat.pow_succ] at h
      have hdiv : n / 256 < 256 ^ k := Nat.div_lt_of_lt_mul (by omega)
      rw [be, of_be_snoc, ih hdiv, UInt8.toNat_ofNat']
      omega

/-- Bytes are those of their number, by induction from the last one. -/
theorem be_of_be (l : List UInt8) : be l.length (of_be l) = l := by
  induction l using List.reverseRecOn with
  | nil => rfl
  | append_singleton l b ih =>
      have hb := b.toNat_lt
      have hhigh : (of_be l * 256 + b.toNat) / 256 = of_be l := by omega
      have hlow : UInt8.ofNat (of_be l * 256 + b.toNat) = b := by
        rw [← UInt8.toNat_inj, UInt8.toNat_ofNat']
        omega
      rw [List.length_append, List.length_singleton, be, of_be_snoc, hhigh, ih, hlow]

theorem of_be_lt (l : List UInt8) : of_be l < 256 ^ l.length := by
  induction l using List.reverseRecOn with
  | nil => exact Nat.one_pos
  | append_singleton l b ih =>
      have hb := b.toNat_lt
      rw [of_be_snoc, List.length_append, List.length_singleton, Nat.pow_succ]
      omega

end CFiber.Base
