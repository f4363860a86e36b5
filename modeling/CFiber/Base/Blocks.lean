/-
  CFiber.Base.Blocks — machines that take their input in blocks.

  A block machine folds `f` over the blocks of `k` elements of its input.  The input arrives piece by
  piece, so the machine keeps a buffer of fewer than `k` elements: `push` is what it does with one
  more.  Since a run over a list is a fold of `push`, cutting the input elsewhere changes nothing;
  what is left to prove about an implementation is what it does with one piece:

    • `push_short`  — a piece that leaves the block open goes to the buffer;
    • `push_full`   — a piece that completes the block is taken in at once;
    • `push_rest`   — the buffer's length is that of the input modulo `k`;
    • `push_blocks` — a whole number of blocks is a fold over the blocks.
-/
import Mathlib.Data.List.Basic

namespace CFiber.Base

variable {σ α : Type*}

/-! ## §1. The machine. -/

/-- One more element: the block it completes is taken in. -/
def push (f : σ → List α → σ) (k : Nat) (s : σ × List α) (x : α) : σ × List α :=
  if s.2.length + 1 < k then (s.1, s.2 ++ [x]) else (f s.1 (s.2 ++ [x]), [])

/-- A piece that leaves the block open, by induction on the piece. -/
theorem push_short (f : σ → List α → σ) {k : Nat} (s : σ) (l : List α) :
    ∀ buf : List α, buf.length + l.length < k → l.foldl (push f k) (s, buf) = (s, buf ++ l) := by
  induction l with
  | nil =>
      intro buf _
      rw [List.append_nil]
      rfl
  | cons x l ih =>
      intro buf h
      rw [List.length_cons] at h
      have hopen : push f k (s, buf) x = (s, buf ++ [x]) := if_pos (show buf.length + 1 < k by omega)
      rw [List.foldl_cons, hopen, ih, List.append_assoc]
      · rfl
      · simp only [List.length_append, List.length_cons, List.length_nil]
        omega

/-- A piece that completes the block. -/
theorem push_full (f : σ → List α → σ) {k : Nat} (s : σ) {buf l : List α} (hl : l ≠ [])
    (h : buf.length + l.length = k) : l.foldl (push f k) (s, buf) = (f s (buf ++ l), []) := by
  obtain ⟨init, x, rfl⟩ := (List.eq_nil_or_concat' l).resolve_left hl
  rw [List.length_append, List.length_singleton] at h
  rw [List.foldl_append, push_short f s init buf (by omega)]
  show push f k (s, buf ++ init) x = _
  have hlast : ¬ (buf ++ init).length + 1 < k := by
    rw [List.length_append]
    omega
  rw [push, if_neg hlast, List.append_assoc]

/-- The buffer holds what the last block has of the input, by induction on the input. -/
theorem push_rest (f : σ → List α → σ) {k : Nat} (l : List α) :
    ∀ s : σ × List α, s.2.length < k →
      (l.foldl (push f k) s).2.length = (s.2.length + l.length) % k := by
  induction l with
  | nil => exact fun s hs => (Nat.mod_eq_of_lt hs).symm
  | cons x l ih =>
      intro s hs
      rw [List.foldl_cons, List.length_cons]
      by_cases h : s.2.length + 1 < k
      · have hopen : push f k s x = (s.1, s.2 ++ [x]) := if_pos h
        rw [hopen, ih _ (by simpa using h), List.length_append, List.length_singleton]
        congr 1
        omega
      · -- the element completes the block
        have hfull : push f k s x = (f s.1 (s.2 ++ [x]), []) := if_neg h
        have hk : s.2.length + (l.length + 1) = l.length + k := by omega
        rw [hfull, ih _ (by rw [List.length_nil]; omega), hk, Nat.add_mod_right]
        simp only [List.length_nil, Nat.zero_add]

/-! ## §2. Whole blocks. -/

/-- The blocks of `k` elements of a list. -/
def blocks (k : Nat) (l : List α) : List (List α) :=
  (List.range (l.length / k)).map fun i => (l.drop (i * k)).take k

/-- The first `n` blocks, by induction on `n`. -/
theorem push_take (f : σ → List α → σ) {k : Nat} (hk : 0 < k) (s : σ) (l : List α) (n : Nat)
    (h : n * k ≤ l.length) :
    (l.take (n * k)).foldl (push f k) (s, []) =
      (((List.range n).map fun i => (l.drop (i * k)).take k).foldl f s, []) := by
  induction n with
  | zero =>
      rw [Nat.zero_mul]
      rfl
  | succ n ih =>
      rw [Nat.succ_mul] at h
      have hlen : ((l.drop (n * k)).take k).length = k := by
        rw [List.length_take, List.length_drop]
        omega
      have hne : (l.drop (n * k)).take k ≠ [] := by
        intro e
        rw [e] at hlen
        exact absurd hlen (by simp; omega)
      rw [Nat.succ_mul, List.take_add, List.foldl_append, ih (by omega), List.range_succ,
        List.map_append, List.foldl_append]
      exact push_full f _ hne (by rw [hlen]; exact Nat.zero_add k)

/-- **A whole number of blocks** leaves the buffer empty. -/
theorem push_blocks (f : σ → List α → σ) {k : Nat} (hk : 0 < k) (s : σ) {l : List α}
    (h : k ∣ l.length) : l.foldl (push f k) (s, []) = ((blocks k l).foldl f s, []) := by
  have hmul : l.length / k * k = l.length := Nat.div_mul_cancel h
  have htake := push_take f hk s l (l.length / k) (Nat.le_of_eq hmul)
  rw [hmul, List.take_length] at htake
  exact htake

end CFiber.Base
