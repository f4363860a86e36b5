/-
  CFiber.Base.Scan — filling a stretch of memory, and scanning it for what was changed.

  A memory is a map from addresses to cells.  `fill` is the loop that stores one value in `n` cells,
  `scan` the loop that counts the cells that still hold it, from below:

    • `fill_apply`   — the stretch holds the value, the rest is as it was;
    • `scan_isLeast` — the scan stops at the least address that differs;
    • `scan_all`     — or behind the stretch, where none does.

  Nothing here names a program.
-/
import Mathlib.Data.List.Induction
import Mathlib.Logic.Function.Basic
import Mathlib.Order.Bounds.Defs

namespace CFiber.Base

variable {β : Type*} {m : Nat → β} {p n : Nat} {b : β}

/-- `for (i = 0; i < n; ++i) p[i] = b;` -/
def fill (m : Nat → β) (p n : Nat) (b : β) : Nat → β :=
  (List.range n).foldl (fun m i => Function.update m (p + i) b) m

/-- `while (i < n && p[i] == b) i++;`, where `left` is `n - i`. -/
def scan [DecidableEq β] (m : Nat → β) (p : Nat) (b : β) : (left i : Nat) → Nat
  | 0, i => i
  | left + 1, i => if m (p + i) = b then scan m p b left (i + 1) else i

/-- The addresses of the stretch that hold something else. -/
def differs (m : Nat → β) (p n : Nat) (b : β) : Set Nat := {x | p ≤ x ∧ x < p + n ∧ m x ≠ b}

/-- **What is filled**, by induction on the cells. -/
theorem fill_apply (m : Nat → β) (p n : Nat) (b : β) (x : Nat) :
    fill m p n b x = if p ≤ x ∧ x < p + n then b else m x := by
  induction n with
  | zero =>
      rw [if_neg (by omega)]
      rfl
  | succ n ih =>
      have hlast : fill m p (n + 1) b = Function.update (fill m p n b) (p + n) b := by
        unfold fill
        rw [List.range_succ, List.foldl_append]
        rfl
      rw [hlast]
      by_cases hx : x = p + n
      · rw [hx, Function.update_self, if_pos (by omega)]
      · rw [Function.update_of_ne hx, ih]
        by_cases hin : p ≤ x ∧ x < p + n
        · rw [if_pos hin, if_pos (by omega)]
        · rw [if_neg hin, if_neg (by omega)]

variable [DecidableEq β]

/-- **Where the scan stops**, by induction on the cells that are left: not behind the stretch, all
it passed hold the value, and the cell it stops at does not. -/
theorem scan_spec (m : Nat → β) (p : Nat) (b : β) : ∀ left i,
    i ≤ scan m p b left i ∧ scan m p b left i ≤ i + left ∧
      (∀ j, i ≤ j → j < scan m p b left i → m (p + j) = b) ∧
      (scan m p b left i < i + left → m (p + scan m p b left i) ≠ b) := by
  intro left
  induction left with
  | zero =>
      intro i
      refine ⟨Nat.le_refl i, Nat.le_refl i, ?_, ?_⟩
      · intro j hj hlt
        exact absurd hlt (Nat.not_lt.mpr hj)
      · intro hlt
        exact absurd hlt (Nat.lt_irrefl i)
  | succ left ih =>
      intro i
      unfold scan
      by_cases heq : m (p + i) = b
      · rw [if_pos heq]
        obtain ⟨hge, hle, hpass, hstop⟩ := ih (i + 1)
        refine ⟨by omega, by omega, ?_, fun hlt => hstop (by omega)⟩
        intro j hj hlt
        by_cases hji : j = i
        · rw [hji]
          exact heq
        · exact hpass j (by omega) hlt
      · rw [if_neg heq]
        refine ⟨Nat.le_refl i, by omega, ?_, fun _ => heq⟩
        intro j hj hlt
        exact absurd hlt (Nat.not_lt.mpr hj)

/-- **The scan finds the least address that differs.** -/
theorem scan_isLeast {low : Nat} (h : IsLeast (differs m p n b) low) :
    p + scan m p b n 0 = low := by
  obtain ⟨⟨hge, hlt, hne⟩, hleast⟩ := h
  obtain ⟨-, hle, hpass, hstop⟩ := scan_spec m p b n 0
  -- it does not go past `low`
  have hupto : scan m p b n 0 ≤ low - p := by
    by_contra hbeyond
    have hsame := hpass (low - p) (Nat.zero_le _) (by omega)
    rw [Nat.add_sub_cancel' hge] at hsame
    exact hne hsame
  have hdiffer := hstop (by omega)
  have hbound := hleast ⟨Nat.le_add_right p _, by omega, hdiffer⟩
  omega

/-- **Where nothing differs** it goes to the end. -/
theorem scan_all (h : differs m p n b = ∅) : scan m p b n 0 = n := by
  obtain ⟨-, hle, -, hstop⟩ := scan_spec m p b n 0
  by_contra hne
  have hmem : p + scan m p b n 0 ∈ differs m p n b :=
    ⟨Nat.le_add_right p _, by omega, hstop (by omega)⟩
  rw [h] at hmem
  exact hmem

/-- It does not pass anything exactly if the first cell differs. -/
theorem scan_eq_zero (hn : 0 < n) : scan m p b n 0 = 0 ↔ m p ≠ b := by
  obtain ⟨-, -, hpass, hstop⟩ := scan_spec m p b n 0
  constructor
  · intro hzero
    have hdiffer := hstop (by omega)
    rwa [hzero, Nat.add_zero] at hdiffer
  · intro hne
    by_contra hpos
    exact hne (hpass 0 (Nat.le_refl 0) (Nat.pos_of_ne_zero hpos))

end CFiber.Base
