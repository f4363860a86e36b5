/-
  CFiber.Base.Indexed — arrays whose members record their own position.

  `a : Nat → α` holds `n` members, and `ix : α → Option Nat` is the member's own record of its
  slot (`none` for no slot).  `Indexed a n ix` says that every record is right; it makes the members
  pairwise distinct.  The operations of an indexed priority queue keep it:

    • `Indexed.swap`  — exchange two slots and correct both records;
    • `Indexed.push`  — put a newcomer behind the last slot;
    • `Indexed.clear` — drop the last slot;
    • `Indexed.fill`  — move the last member into the slot of a removed one.

  Each has a companion that says who the members are afterwards; `contents` counts them.
-/
import Mathlib.Data.Multiset.Filter
import Mathlib.Data.Multiset.Range
import Mathlib.Logic.Function.Basic
import Mathlib.Tactic.Common

namespace CFiber.Base

variable {α : Type*} [DecidableEq α]

/-! ## §1. The law and its consequences. -/

/-- Every member records the slot it is in. -/
def Indexed (a : Nat → α) (n : Nat) (ix : α → Option Nat) : Prop :=
  ∀ i < n, ix (a i) = some i

/-- `x` is in one of the first `n` slots. -/
def Slotted (a : Nat → α) (n : Nat) (x : α) : Prop := ∃ i < n, a i = x

omit [DecidableEq α] in
/-- **No member sits in two slots.** -/
theorem Indexed.inj {a : Nat → α} {n : Nat} {ix : α → Option Nat} (h : Indexed a n ix) {i j : Nat}
    (hi : i < n) (hj : j < n) (e : a i = a j) : i = j := by
  have hri := h i hi
  rw [e, h j hj] at hri
  exact (Option.some.inj hri).symm

omit [DecidableEq α] in
theorem Indexed.slot {a : Nat → α} {n : Nat} {ix : α → Option Nat} (h : Indexed a n ix) {x : α}
    (hx : Slotted a n x) : ∃ i < n, ix x = some i ∧ a i = x := by
  obtain ⟨i, hi, rfl⟩ := hx
  exact ⟨i, hi, h i hi, rfl⟩

omit [DecidableEq α] in
/-- A member whose record says `none` is not in the array. -/
theorem Indexed.not_slotted {a : Nat → α} {n : Nat} {ix : α → Option Nat} (h : Indexed a n ix)
    {x : α} (hx : ix x = none) : ¬ Slotted a n x := by
  intro hm
  obtain ⟨i, -, hr, -⟩ := h.slot hm
  rw [hx] at hr
  exact absurd hr (by simp)

/-! ## §2. Exchange of two slots. -/

/-- The array with slots `i` and `j` exchanged. -/
def swapAt (a : Nat → α) (i j : Nat) : Nat → α :=
  Function.update (Function.update a i (a j)) j (a i)

/-- The records after slots `i` and `j` are exchanged. -/
def swapIx (a : Nat → α) (ix : α → Option Nat) (i j : Nat) : α → Option Nat :=
  Function.update (Function.update ix (a j) (some i)) (a i) (some j)

omit [DecidableEq α] in
theorem swapAt_left (a : Nat → α) (i j : Nat) : swapAt a i j i = a j := by
  unfold swapAt
  by_cases h : i = j
  · subst h; simp
  · rw [Function.update_of_ne h, Function.update_self]

omit [DecidableEq α] in
theorem swapAt_right (a : Nat → α) (i j : Nat) : swapAt a i j j = a i := by
  simp [swapAt]

omit [DecidableEq α] in
theorem swapAt_of_ne (a : Nat → α) {i j k : Nat} (hi : k ≠ i) (hj : k ≠ j) :
    swapAt a i j k = a k := by
  simp [swapAt, Function.update_of_ne hi, Function.update_of_ne hj]

omit [DecidableEq α] in
/-- **An exchange keeps the members.** -/
theorem slotted_swapAt {a : Nat → α} {n i j : Nat} (hi : i < n) (hj : j < n) (x : α) :
    Slotted (swapAt a i j) n x ↔ Slotted a n x := by
  -- each slot of one array holds what some slot of the other does
  constructor
  · rintro ⟨k, hk, rfl⟩
    by_cases hki : k = i
    · exact ⟨j, hj, by rw [hki, swapAt_left]⟩
    by_cases hkj : k = j
    · exact ⟨i, hi, by rw [hkj, swapAt_right]⟩
    · exact ⟨k, hk, (swapAt_of_ne a hki hkj).symm⟩
  · rintro ⟨k, hk, rfl⟩
    by_cases hki : k = i
    · exact ⟨j, hj, by rw [hki, swapAt_right]⟩
    by_cases hkj : k = j
    · exact ⟨i, hi, by rw [hkj, swapAt_left]⟩
    · exact ⟨k, hk, swapAt_of_ne a hki hkj⟩

/-- **An exchange with both records corrected keeps the law.** -/
theorem Indexed.swap {a : Nat → α} {n : Nat} {ix : α → Option Nat} (h : Indexed a n ix) {i j : Nat}
    (hi : i < n) (hj : j < n) : Indexed (swapAt a i j) n (swapIx a ix i j) := by
  intro k hk
  unfold swapIx
  by_cases hkj : k = j
  · subst hkj
    rw [swapAt_right, Function.update_self]
  by_cases hki : k = i
  · subst hki
    have hne : a j ≠ a k := fun e => hkj (h.inj hk hj e.symm)
    rw [swapAt_left, Function.update_of_ne hne, Function.update_self]
  · -- the other members sit elsewhere, so their records are not touched
    have hni : a k ≠ a i := fun e => hki (h.inj hk hi e)
    have hnj : a k ≠ a j := fun e => hkj (h.inj hk hj e)
    rw [swapAt_of_ne a hki hkj, Function.update_of_ne hni, Function.update_of_ne hnj]
    exact h k hk

theorem swapIx_of_ne {a : Nat → α} {ix : α → Option Nat} {i j : Nat} {x : α} (hi : x ≠ a i)
    (hj : x ≠ a j) : swapIx a ix i j x = ix x := by
  simp [swapIx, Function.update_of_ne hi, Function.update_of_ne hj]

/-! ## §3. Insertion and removal. -/

/-- **Push.** -/
theorem Indexed.push {a : Nat → α} {n : Nat} {ix : α → Option Nat} (h : Indexed a n ix) {x : α}
    (hx : ¬ Slotted a n x) :
    Indexed (Function.update a n x) (n + 1) (Function.update ix x (some n)) := by
  intro i hi
  by_cases hin : i = n
  · subst hin; simp
  · have hlt : i < n := by omega
    have hne : a i ≠ x := fun e => hx ⟨i, hlt, e⟩
    rw [Function.update_of_ne hin, Function.update_of_ne hne]
    exact h i hlt

omit [DecidableEq α] in
theorem slotted_push {a : Nat → α} {n : Nat} {x y : α} :
    Slotted (Function.update a n x) (n + 1) y ↔ y = x ∨ Slotted a n y := by
  constructor
  · rintro ⟨i, hi, rfl⟩
    by_cases hin : i = n
    · subst hin; simp
    · rw [Function.update_of_ne hin]
      exact Or.inr ⟨i, by omega, rfl⟩
  · rintro (rfl | ⟨i, hi, rfl⟩)
    · exact ⟨n, by omega, by simp⟩
    · exact ⟨i, by omega, Function.update_of_ne (by omega) _ _⟩

/-- **Clear.**  The member of the last slot leaves. -/
theorem Indexed.clear {a : Nat → α} {n : Nat} {ix : α → Option Nat} (h : Indexed a (n + 1) ix) :
    Indexed a n (Function.update ix (a n) none) := by
  intro i hi
  have hne : a i ≠ a n := fun e => by
    have := h.inj (by omega) (by omega) e
    omega
  rw [Function.update_of_ne hne]
  exact h i (by omega)

omit [DecidableEq α] in
theorem slotted_clear {a : Nat → α} {n : Nat} {ix : α → Option Nat} (h : Indexed a (n + 1) ix)
    (y : α) : Slotted a n y ↔ Slotted a (n + 1) y ∧ y ≠ a n := by
  constructor
  · rintro ⟨i, hi, rfl⟩
    refine ⟨⟨i, by omega, rfl⟩, fun e => ?_⟩
    have := h.inj (by omega) (by omega) e
    omega
  · rintro ⟨⟨i, hi, rfl⟩, hne⟩
    have hin : i ≠ n := fun e => hne (by rw [e])
    exact ⟨i, by omega, rfl⟩

/-- **Fill.**  The member of slot `i` leaves and the last one takes its slot. -/
theorem Indexed.fill {a : Nat → α} {n : Nat} {ix : α → Option Nat} (h : Indexed a (n + 1) ix)
    {i : Nat} (hi : i < n) :
    Indexed (Function.update a i (a n)) n
      (Function.update (Function.update ix (a i) none) (a n) (some i)) := by
  intro k hk
  by_cases hki : k = i
  · subst hki; simp
  · have hkn : a k ≠ a n := fun e => by
      have := h.inj (by omega) (by omega) e
      omega
    have hkx : a k ≠ a i := fun e => hki (h.inj (by omega) (by omega) e)
    rw [Function.update_of_ne hki, Function.update_of_ne hkn, Function.update_of_ne hkx]
    exact h k (by omega)

omit [DecidableEq α] in
theorem slotted_fill {a : Nat → α} {n : Nat} {ix : α → Option Nat} (h : Indexed a (n + 1) ix)
    {i : Nat} (hi : i < n) (y : α) :
    Slotted (Function.update a i (a n)) n y ↔ Slotted a (n + 1) y ∧ y ≠ a i := by
  constructor
  · rintro ⟨k, hk, rfl⟩
    by_cases hki : k = i
    · subst hki
      rw [Function.update_self]
      refine ⟨⟨n, by omega, rfl⟩, fun e => ?_⟩
      have := h.inj (by omega) (by omega) e
      omega
    · rw [Function.update_of_ne hki]
      exact ⟨⟨k, by omega, rfl⟩, fun e => hki (h.inj (by omega) (by omega) e)⟩
  · rintro ⟨⟨k, hk, rfl⟩, hne⟩
    by_cases hkn : k = n
    · subst hkn
      exact ⟨i, hi, by simp⟩
    · have hki : k ≠ i := fun e => hne (by rw [e])
      exact ⟨k, by omega, Function.update_of_ne hki _ _⟩

/-! ## §4. The members as a multiset. -/

/-- What the first `n` slots hold, slot by slot. -/
def contents (a : Nat → α) (n : Nat) : Multiset α := (Multiset.range n).map a

end CFiber.Base
